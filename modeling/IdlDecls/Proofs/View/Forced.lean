import IdlDecls.Proofs.View.Kept

/-!
# Known names in a view

A view holds every definition that goes by a known name, whether or not something refers to it,
unless the definition is an enumeration (`Graph.view_holdsKnown`). The search of a view starts from
the known names, but it visits only names that a link mentions, and an enumeration has no link of its
own: a known enumeration is held exactly if another definition mentions its name or goes by it.
-/

namespace IdlDecls.Graph

/-! ## Names that a link mentions -/

/-- A definition other than an enumeration goes by a name. Interfaces and namespaces count as the view
`v` holds them, the other definitions as the graph `g` has them. -/
inductive Defines (g v : Graph) : String → Prop where
  | interface {key : String} {i : Interface} : v.interface? key = some i → Defines g v i.name
  | namespace {n : Interface} : n ∈ v.namespaces.getD [] → Defines g v n.name
  | mixin {key : String} {m : Interface} : g.mixin? key = some m → Defines g v m.name
  | callbackInterface {key : String} {i : Interface} :
      lookup? g.callbackInterfaces key = some i → Defines g v i.name
  | callbackFunction {key : String} {f : CallbackFunction} :
      lookup? g.callbackFunctions key = some f → Defines g v f.name
  | dictionary {key : String} {d : Dictionary} : g.dictionary? key = some d → Defines g v d.name
  | typedef {t : Typedef} : t ∈ g.typedefs.getD [] → Defines g v t.name

section Search

variable {g : Graph} {context : String} {known : List String}

theorem interface_link_mem {key : String} {i : Interface}
    (h : (g.viewParts context known).interface? key = some i) : i.link ∈ g.links context known := by
  simp only [links, List.mem_append, List.mem_map, mem_values_viewInterfaces]
  exact Or.inl (Or.inl (Or.inl (Or.inl (Or.inl (Or.inl ⟨i, ⟨key, h⟩, rfl⟩)))))

theorem namespace_link_mem {n : Interface}
    (h : n ∈ (g.viewParts context known).namespaces.getD []) : n.link ∈ g.links context known := by
  rw [namespaces_viewParts] at h
  simp only [links, List.mem_append, List.mem_map]
  exact Or.inl (Or.inl (Or.inl (Or.inl (Or.inl (Or.inr ⟨n, h, rfl⟩)))))

/-- Every definition but an enumeration has a link. -/
theorem exists_source_iff (hnames : IdlDecls.NamesAreKeys Interface.name g.mixins) {name : String} :
    (∃ link ∈ g.links context known, link.source = name) ↔
      g.Defines (g.viewParts context known) name := by
  constructor
  · rintro ⟨link, hlink, rfl⟩
    simp only [links, List.mem_append, List.mem_map, mem_valuesOf, mem_values_viewInterfaces,
      mem_values_scopedMixins hnames] at hlink
    rcases hlink with (((((⟨i, ⟨key, hi⟩, rfl⟩ | ⟨n, hn, rfl⟩) | ⟨_, ⟨key, m, hm, rfl⟩, rfl⟩) |
      ⟨i, ⟨key, hi⟩, rfl⟩) | ⟨d, ⟨key, hd⟩, rfl⟩) | ⟨t, ht, rfl⟩) | ⟨f, ⟨key, hf⟩, rfl⟩
    · exact .interface hi
    · exact .namespace (namespaces_viewParts ▸ hn)
    · exact .mixin (m := m) hm
    · exact .callbackInterface hi
    · exact .dictionary hd
    · exact .typedef ht
    · exact .callbackFunction hf
  · rintro (hi | hn | hm | hi | hf | hd | ht)
    · exact ⟨_, interface_link_mem hi, rfl⟩
    · exact ⟨_, namespace_link_mem hn, rfl⟩
    · exact ⟨_, mixin_link_mem hnames hm, rfl⟩
    · exact ⟨_, callbackInterface_link_mem hi, rfl⟩
    · exact ⟨_, callbackFunction_link_mem hf, rfl⟩
    · exact ⟨_, dictionary_link_mem hd, rfl⟩
    · exact ⟨_, typedef_link_mem ht, rfl⟩

/-- **The names that the search can visit** are those that a definition goes by or mentions. -/
theorem mem_nodes_links (hnames : IdlDecls.NamesAreKeys Interface.name g.mixins) {name : String} :
    name ∈ (g.links context known).nodes ↔ g.Defines (g.viewParts context known) name ∨
      ∃ other, g.Mentions (g.viewParts context known) context other name := by
  rw [Links.mem_nodes, ← exists_source_iff hnames]
  simp only [← mem_targetsOf_links hnames, Links.mem_targetsOf]
  constructor
  · rintro ⟨link, hlink, rfl | htarget⟩
    · exact Or.inl ⟨link, hlink, rfl⟩
    · exact Or.inr ⟨link.source, link, hlink, rfl, htarget⟩
  · rintro (⟨link, hlink, hsource⟩ | ⟨other, link, hlink, -, htarget⟩)
    · exact ⟨link, hlink, Or.inl hsource.symm⟩
    · exact ⟨link, hlink, Or.inr htarget⟩

end Search

/-! ## What a known name keeps -/

/-- What the view `v` of a context holds of the graph `g` under a known name: the interface, the mixin
and the namespaces with the members that the context sees, where those of an interface have to be
hidden by an exposure of their own if it is not exposed itself; and the other definitions as they are.
An enumeration is held if another definition goes by its name or mentions it. -/
structure HoldsKnown (g v : Graph) (context name : String) : Prop where
  interface : ∀ i, v.interface? name = some i ↔ ∃ whole, g.interface? name = some whole ∧
    whole.Restricts
      (Exposure.SeenUnder context (if isExposedIn whole.exposed context then whole.exposed else none)) i
  mixin : ∀ m, v.mixin? name = some m ↔ ∃ whole, g.mixin? name = some whole ∧
    whole.Restricts (Exposure.SeenUnder context whole.exposed) m
  callbackInterface : lookup? v.callbackInterfaces name = lookup? g.callbackInterfaces name
  callbackFunction : lookup? v.callbackFunctions name = lookup? g.callbackFunctions name
  dictionary : v.dictionary? name = g.dictionary? name
  namespaces : List.Forall₂ (fun whole n => whole.Restricts (Exposure.SeenUnder context whole.exposed) n)
    ((g.namespaces.getD []).filter (·.name = name)) ((v.namespaces.getD []).filter (·.name = name))
  typedefs : (v.typedefs.getD []).filter (·.name = name) =
    (g.typedefs.getD []).filter (·.name = name)
  enum : ∀ e, v.enum? name = some e ↔ g.enum? name = some e ∧
    (g.Defines v name ∨ ∃ other, g.Mentions v context other name)

theorem selectInterface?_of_known {context name : String} {known : List String} {i : Interface}
    (hname : name ∈ known) (h : i.name = name) : selectInterface? context known i =
      some (i.scopedTo context (isExposedIn i.exposed context)) :=
  selectInterface?_eq_some_iff.2 ⟨Or.inr (h ▸ hname), rfl⟩

theorem filter_viewNamespaces_of_known (g : Graph) (context : String) {name : String}
    {known : List String} (hname : name ∈ known) :
    (g.viewNamespaces context known).filter (·.name = name) =
      ((g.namespaces.getD []).filter (·.name = name)).map (·.scopedTo context true) := by
  rw [viewNamespaces, List.filter_filterMap, ← List.filterMap_eq_map, List.filterMap_filter]
  refine List.filterMap_congr fun n _ => ?_
  by_cases h : n.name = name
  · simp [selectNamespace?, h, hname]
  · cases hselect : selectNamespace? context known n with
    | none => simp [h]
    | some m => simp [h, name_of_selectNamespace? hselect]

/-- **A view holds what goes by a known name**, but not every enumeration. -/
theorem view_holdsKnown {g : Graph} (hg : g.NamesAreKeys) {context : String}
    (hcontext : Text.blank context = false) {known : List String} {name : String}
    (hname : name ∈ known) :
    ∃ v, g.view context known = .ok v ∧ g.HoldsKnown v context name := by
  have hkeeps := keeps_viewParts hg context known
  have hleads : g.Leads (g.viewParts context known) context known name := .known hname
  refine ⟨_, view_eq_ok g known hcontext, ?_, ?_, ?_, ?_, ?_, ?_, ?_, ?_⟩
  · intro i
    rw [interface?_viewParts, get?_viewInterfaces hg.interfaces, Option.bind_eq_some_iff]
    refine exists_congr fun whole => and_congr_right fun hwhole => ?_
    rw [selectInterface?_of_known hname (hg.interfaces name whole hwhole), Option.some_inj, eq_comm,
      Interface.restricts_iff_eq_scopedTo]
  · intro m
    rw [hkeeps.mixins]
    simp only [hleads, true_and]
  · apply Option.ext
    intro i
    rw [hkeeps.callbackInterfaces, and_iff_left hleads]
  · apply Option.ext
    intro f
    rw [hkeeps.callbackFunctions, and_iff_left hleads]
  · apply Option.ext
    intro d
    rw [hkeeps.dictionaries, and_iff_left hleads]
  · rw [namespaces_viewParts, filter_viewNamespaces_of_known g context hname,
      List.forall₂_map_right_iff, List.forall₂_same]
    exact fun n _ => n.restricts_scopedTo context true
  · rw [hkeeps.typedefs, List.filter_filter]
    refine List.filter_congr fun t _ => ?_
    by_cases h : t.name = name
    · simp [h, hleads]
    · simp [h]
  · intro e
    rw [enum?, viewParts, lookup?_keepReached]
    refine and_congr_right fun _ => ?_
    rw [mem_reachedNames_iff hg.mixins, and_iff_left hleads, mem_nodes_links hg.mixins]
    rfl

/-- A graph in which nothing refers to its enumeration or to its dictionary. -/
def modeGraph : Graph where
  dictionaries := some (.ofList [("Options", { name := "Options" })])
  enums := some (.ofList [("Mode", { name := "Mode", values := ["open", "closed"] })])

/-- Where both are known, the view has the dictionary but not the enumeration. -/
theorem modeGraph_view_leaves_out_known_enum :
    modeGraph.NamesAreKeys ∧ (modeGraph.enum? "Mode").isSome ∧
      ∃ v, modeGraph.view "Window" ["Mode", "Options"] = .ok v ∧
        v.dictionary? "Options" = modeGraph.dictionary? "Options" ∧ v.enum? "Mode" = none := by
  have hg : modeGraph.NamesAreKeys := by decide +kernel
  have hnode : "Mode" ∉ (modeGraph.links "Window" ["Mode", "Options"]).nodes := by decide +kernel
  have hcontext : Text.blank "Window" = false := by decide +kernel
  have hknown : "Options" ∈ ["Mode", "Options"] := by decide
  obtain ⟨v, hv, hholds⟩ := view_holdsKnown hg hcontext hknown
  refine ⟨hg, by decide +kernel, v, hv, hholds.dictionary, ?_⟩
  rw [view_eq_ok modeGraph ["Mode", "Options"] hcontext] at hv
  cases hv
  refine Option.eq_none_iff_forall_ne_some.2 fun e he => hnode ?_
  rw [enum?, viewParts, lookup?_keepReached] at he
  exact ((mem_reachedNames_iff hg.mixins).1 he.2).1

end IdlDecls.Graph
