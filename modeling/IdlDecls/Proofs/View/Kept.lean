import IdlDecls.Proofs.View.Mentions
import IdlDecls.Proofs.View.Reachable
import IdlDecls.Proofs.View.Scoped

/-!
# What a view keeps

Beside the selected interfaces and namespaces, the view of a context keeps what they and the known
names lead to. `Graph.Leads` is that set of names, defined by what the definitions mention and not
by a search, and `Graph.view_keeps` says which definitions the view holds in terms of it.
-/

namespace IdlDecls

/-- In every collection with keys the definitions go by their keys. -/
structure Graph.NamesAreKeys (g : Graph) : Prop where
  interfaces : IdlDecls.NamesAreKeys Interface.name g.interfaces
  mixins : IdlDecls.NamesAreKeys Interface.name g.mixins
  callbackInterfaces : IdlDecls.NamesAreKeys Interface.name g.callbackInterfaces
  callbackFunctions : IdlDecls.NamesAreKeys CallbackFunction.name g.callbackFunctions
  dictionaries : IdlDecls.NamesAreKeys Dictionary.name g.dictionaries
  enums : IdlDecls.NamesAreKeys Enumeration.name g.enums

instance (g : Graph) : Decidable g.NamesAreKeys :=
  decidable_of_iff (_ ∧ _ ∧ _ ∧ _ ∧ _ ∧ _)
    ⟨fun ⟨h, h', h'', h₃, h₄, h₅⟩ => ⟨h, h', h'', h₃, h₄, h₅⟩,
      fun h => ⟨h.interfaces, h.mixins, h.callbackInterfaces, h.callbackFunctions, h.dictionaries,
        h.enums⟩⟩

/-! ## The names that a view leads to -/

/-- A definition with a name mentions another name. Interfaces and namespaces count as the view `v`
of the context holds them, mixins with the members that the context sees, and the other definitions
as the graph `g` has them. -/
inductive Graph.Mentions (g v : Graph) (context : String) : String → String → Prop where
  | interface {key other : String} {i : Interface} :
      v.interface? key = some i → i.Mentions other → Graph.Mentions g v context i.name other
  | namespace {other : String} {n : Interface} :
      n ∈ v.namespaces.getD [] → n.Mentions other → Graph.Mentions g v context n.name other
  | mixin {key other : String} {m seen : Interface} :
      g.mixin? key = some m → m.Restricts (Exposure.SeenUnder context m.exposed) seen →
      seen.Mentions other → Graph.Mentions g v context m.name other
  | callbackInterface {key other : String} {i : Interface} :
      lookup? g.callbackInterfaces key = some i → i.Mentions other →
      Graph.Mentions g v context i.name other
  | callbackFunction {key other : String} {f : CallbackFunction} :
      lookup? g.callbackFunctions key = some f → f.Mentions other →
      Graph.Mentions g v context f.name other
  | dictionary {key other : String} {d : Dictionary} :
      g.dictionary? key = some d → d.Mentions other → Graph.Mentions g v context d.name other
  | typedef {other : String} {t : Typedef} :
      t ∈ g.typedefs.getD [] → t.type.Mentions other → Graph.Mentions g v context t.name other

/-- The least set of names that holds those of the interfaces and namespaces of the view and the
known names, and with a name whatever the definitions with this name mention. -/
inductive Graph.Leads (g v : Graph) (context : String) (known : List String) : String → Prop where
  | interface {key : String} {i : Interface} :
      v.interface? key = some i → Graph.Leads g v context known i.name
  | namespace {n : Interface} :
      n ∈ v.namespaces.getD [] → Graph.Leads g v context known n.name
  | known {name : String} : name ∈ known → Graph.Leads g v context known name
  | mention {name other : String} :
      Graph.Leads g v context known name → Graph.Mentions g v context name other →
      Graph.Leads g v context known other

namespace Graph

/-! ## The search of the view -/

section Search

variable {g : Graph} {context : String} {known : List String}

theorem getD_listUnlessEmpty {α : Type} (l : List α) : (listUnlessEmpty l).getD [] = l := by
  cases l <;> rfl

theorem namespaces_viewParts :
    (g.viewParts context known).namespaces.getD [] = g.viewNamespaces context known :=
  getD_listUnlessEmpty _

theorem mem_values_viewInterfaces {i : Interface} :
    i ∈ (g.viewInterfaces context known).values ↔
      ∃ key, (g.viewParts context known).interface? key = some i := by
  simp only [Keyed.mem_values, interface?_viewParts]

theorem mem_values_scopedMixins (hnames : IdlDecls.NamesAreKeys Interface.name g.mixins)
    {i : Interface} : i ∈ (g.scopedMixins context).values ↔
      ∃ key m, g.mixin? key = some m ∧ m.scopedTo context true = i := by
  simp only [Keyed.mem_values, get?_scopedMixins hnames, Option.map_eq_some_iff]

/-- **The links of a graph are what its definitions mention.** -/
theorem mem_targetsOf_links (hnames : IdlDecls.NamesAreKeys Interface.name g.mixins)
    {name other : String} : other ∈ (g.links context known).targetsOf name ↔
      g.Mentions (g.viewParts context known) context name other := by
  simp only [Links.mem_targetsOf, links, List.mem_append, List.mem_map, mem_valuesOf,
    mem_values_viewInterfaces, mem_values_scopedMixins hnames]
  constructor
  · rintro ⟨link, hlink, rfl, hother⟩
    rcases hlink with (((((⟨i, ⟨key, hi⟩, rfl⟩ | ⟨n, hn, rfl⟩) | ⟨_, ⟨key, m, hm, rfl⟩, rfl⟩) |
      ⟨i, ⟨key, hi⟩, rfl⟩) | ⟨d, ⟨key, hd⟩, rfl⟩) | ⟨t, ht, rfl⟩) | ⟨f, ⟨key, hf⟩, rfl⟩
    · exact .interface hi (Interface.mem_mentions_iff.1 hother)
    · exact .namespace (namespaces_viewParts ▸ hn) (Interface.mem_mentions_iff.1 hother)
    · exact .mixin (m := m) hm (m.restricts_scopedTo context true)
        (Interface.mem_mentions_iff.1 hother)
    · exact .callbackInterface hi (Interface.mem_mentions_iff.1 hother)
    · exact .dictionary hd (Dictionary.mem_mentions_iff.1 hother)
    · exact .typedef ht (TypeRef.mem_names_iff.1 hother)
    · exact .callbackFunction hf (CallbackFunction.mem_mentions_iff.1 hother)
  · rintro (⟨hi, hother⟩ | ⟨hn, hother⟩ | ⟨hm, hseen, hother⟩ | ⟨hi, hother⟩ | ⟨hf, hother⟩ |
      ⟨hd, hother⟩ | ⟨ht, hother⟩)
    · refine ⟨Interface.link _, ?_, rfl, Interface.mem_mentions_iff.2 hother⟩
      exact Or.inl (Or.inl (Or.inl (Or.inl (Or.inl (Or.inl ⟨_, ⟨_, hi⟩, rfl⟩)))))
    · refine ⟨Interface.link _, ?_, rfl, Interface.mem_mentions_iff.2 hother⟩
      exact Or.inl (Or.inl (Or.inl (Or.inl (Or.inl (Or.inr ⟨_, namespaces_viewParts ▸ hn, rfl⟩)))))
    · obtain rfl := (Interface.restricts_iff_eq_scopedTo context true).1 hseen
      refine ⟨Interface.link (Interface.scopedTo context true _), ?_, rfl,
        Interface.mem_mentions_iff.2 hother⟩
      exact Or.inl (Or.inl (Or.inl (Or.inl (Or.inr ⟨_, ⟨_, _, hm, rfl⟩, rfl⟩))))
    · refine ⟨Interface.link _, ?_, rfl, Interface.mem_mentions_iff.2 hother⟩
      exact Or.inl (Or.inl (Or.inl (Or.inr ⟨_, ⟨_, hi⟩, rfl⟩)))
    · refine ⟨CallbackFunction.link _, ?_, rfl, CallbackFunction.mem_mentions_iff.2 hother⟩
      exact Or.inr ⟨_, ⟨_, hf⟩, rfl⟩
    · refine ⟨Dictionary.link _, ?_, rfl, Dictionary.mem_mentions_iff.2 hother⟩
      exact Or.inl (Or.inl (Or.inr ⟨_, ⟨_, hd⟩, rfl⟩))
    · refine ⟨Typedef.link _, ?_, rfl, TypeRef.mem_names_iff.2 hother⟩
      exact Or.inl (Or.inr ⟨_, ht, rfl⟩)

theorem mem_roots {name : String} : name ∈ g.roots context known ↔
    (∃ i key, (g.viewParts context known).interface? key = some i ∧ i.name = name) ∨
      (∃ n ∈ (g.viewParts context known).namespaces.getD [], n.name = name) ∨ name ∈ known := by
  simp only [roots, List.mem_append, List.mem_map, mem_values_viewInterfaces, namespaces_viewParts,
    or_assoc]
  refine or_congr_left (exists_congr fun i => ?_)
  constructor
  · rintro ⟨⟨key, hi⟩, hname⟩; exact ⟨key, hi, hname⟩
  · rintro ⟨key, hi, hname⟩; exact ⟨⟨key, hi⟩, hname⟩

theorem leads_iff_reachable (hnames : IdlDecls.NamesAreKeys Interface.name g.mixins)
    {name : String} : g.Leads (g.viewParts context known) context known name ↔
      (g.links context known).Reachable (g.roots context known) name := by
  constructor
  · intro h
    induction h with
    | interface hi => exact .root (mem_roots.2 (Or.inl ⟨_, _, hi, rfl⟩))
    | «namespace» hn => exact .root (mem_roots.2 (Or.inr (Or.inl ⟨_, hn, rfl⟩)))
    | known hname => exact .root (mem_roots.2 (Or.inr (Or.inr hname)))
    | mention _ hother ih => exact .target ih ((mem_targetsOf_links hnames).2 hother)
  · intro h
    induction h with
    | root hroot =>
      rcases mem_roots.1 hroot with ⟨i, key, hi, rfl⟩ | ⟨n, hn, rfl⟩ | hname
      · exact .interface hi
      · exact .namespace hn
      · exact .known hname
    | target _ htarget ih => exact .mention ih ((mem_targetsOf_links hnames).1 htarget)

/-- The view reaches a name that it leads to if some link mentions it. -/
theorem mem_reachedNames_iff (hnames : IdlDecls.NamesAreKeys Interface.name g.mixins)
    {name : String} : name ∈ g.reachedNames context known ↔
      name ∈ (g.links context known).nodes ∧
        g.Leads (g.viewParts context known) context known name := by
  rw [reachedNames, Links.mem_reach_iff, leads_iff_reachable hnames]

/-- **A name with a definition is reached exactly if the view leads to it**: its link makes it a
node of the search. -/
theorem mem_reachedNames_of_link (hnames : IdlDecls.NamesAreKeys Interface.name g.mixins)
    {link : Link} {name : String} (hlink : link ∈ g.links context known)
    (hsource : link.source = name) : name ∈ g.reachedNames context known ↔
      g.Leads (g.viewParts context known) context known name := by
  rw [mem_reachedNames_iff hnames, ← hsource, and_iff_right (Links.source_mem_nodes hlink)]

theorem mixin_link_mem (hnames : IdlDecls.NamesAreKeys Interface.name g.mixins) {key : String}
    {m : Interface} (h : g.mixin? key = some m) :
    (m.scopedTo context true).link ∈ g.links context known := by
  simp only [links, List.mem_append, List.mem_map, mem_values_scopedMixins hnames]
  exact Or.inl (Or.inl (Or.inl (Or.inl (Or.inr ⟨_, ⟨key, m, h, rfl⟩, rfl⟩))))

theorem callbackInterface_link_mem {key : String} {i : Interface}
    (h : lookup? g.callbackInterfaces key = some i) : i.link ∈ g.links context known := by
  simp only [links, List.mem_append, List.mem_map, mem_valuesOf]
  exact Or.inl (Or.inl (Or.inl (Or.inr ⟨i, ⟨key, h⟩, rfl⟩)))

theorem dictionary_link_mem {key : String} {d : Dictionary} (h : g.dictionary? key = some d) :
    d.link ∈ g.links context known := by
  simp only [links, List.mem_append, List.mem_map, mem_valuesOf]
  exact Or.inl (Or.inl (Or.inr ⟨d, ⟨key, h⟩, rfl⟩))

theorem typedef_link_mem {t : Typedef} (h : t ∈ g.typedefs.getD []) :
    t.link ∈ g.links context known := by
  simp only [links, List.mem_append, List.mem_map]
  exact Or.inl (Or.inr ⟨t, h, rfl⟩)

theorem callbackFunction_link_mem {key : String} {f : CallbackFunction}
    (h : lookup? g.callbackFunctions key = some f) : f.link ∈ g.links context known := by
  simp only [links, List.mem_append, List.mem_map, mem_valuesOf]
  exact Or.inr ⟨f, ⟨key, h⟩, rfl⟩

end Search

/-! ## The kept definitions -/

/-- What the view `v` of a context holds of the graph `g` because it leads there. Mixins are restricted
to the members that the context sees, everything else is kept as it is. An enumeration mentions
nothing, and it is sure to be kept if another kept definition mentions it. -/
structure Keeps (g v : Graph) (context : String) (known : List String) : Prop where
  mixins : ∀ key m, v.mixin? key = some m ↔
    ∃ whole, g.mixin? key = some whole ∧ g.Leads v context known key ∧
      whole.Restricts (Exposure.SeenUnder context whole.exposed) m
  callbackInterfaces : ∀ key i, lookup? v.callbackInterfaces key = some i ↔
    lookup? g.callbackInterfaces key = some i ∧ g.Leads v context known key
  callbackFunctions : ∀ key f, lookup? v.callbackFunctions key = some f ↔
    lookup? g.callbackFunctions key = some f ∧ g.Leads v context known key
  dictionaries : ∀ key d, v.dictionary? key = some d ↔
    g.dictionary? key = some d ∧ g.Leads v context known key
  typedefs : v.typedefs.getD [] = open Classical in
    (g.typedefs.getD []).filter fun t => g.Leads v context known t.name
  enums : ∀ key e, v.enum? key = some e → g.enum? key = some e ∧ g.Leads v context known key
  mentionedEnums : ∀ key e name, g.enum? key = some e → g.Leads v context known name →
    g.Mentions v context name key → v.enum? key = some e

theorem lookup?_keepReached {α : Type} {reached : List String} {c : Option (Keyed α)} {key : String}
    {value : α} : lookup? (keepReached reached c) key = some value ↔
      lookup? c key = some value ∧ key ∈ reached := by
  cases c with
  | none => simp [keepReached]
  | some m => simp [keepReached, Option.filter_eq_some_iff]

theorem getD_typedefs_viewParts (g : Graph) (context : String) (known : List String) :
    (g.viewParts context known).typedefs.getD [] =
      (g.typedefs.getD []).filter fun t => (g.reachedNames context known).contains t.name := by
  rw [viewParts]
  cases g.typedefs with
  | none => rfl
  | some typedefs => exact getD_listUnlessEmpty _

/-- Where definitions go by their keys, they do in every view. -/
theorem NamesAreKeys.viewParts {g : Graph} (hg : g.NamesAreKeys) (context : String)
    (known : List String) : (g.viewParts context known).NamesAreKeys where
  interfaces key j hj := by
    obtain ⟨i, hi, hij⟩ := Option.bind_eq_some_iff.1
      ((interface?_viewParts_eq_bind hg.interfaces context known key).symm.trans hj)
    exact (name_of_selectInterface? hij).trans (hg.interfaces key i hi)
  mixins key j hj := by
    rw [Graph.viewParts, lookup?_keepReached, lookup?_some, get?_scopedMixins hg.mixins,
      Option.map_eq_some_iff] at hj
    obtain ⟨⟨m, hm, rfl⟩, -⟩ := hj
    exact hg.mixins key m hm
  callbackInterfaces key i hi := hg.callbackInterfaces key i (lookup?_keepReached.1 hi).1
  callbackFunctions key f hf := hg.callbackFunctions key f (lookup?_keepReached.1 hf).1
  dictionaries key d hd := hg.dictionaries key d (lookup?_keepReached.1 hd).1
  enums key e he := hg.enums key e (lookup?_keepReached.1 he).1

theorem keeps_viewParts {g : Graph} (hg : g.NamesAreKeys) (context : String)
    (known : List String) : g.Keeps (g.viewParts context known) context known where
  mixins key m := by
    rw [mixin?, viewParts, lookup?_keepReached, lookup?_some, get?_scopedMixins hg.mixins,
      Option.map_eq_some_iff]
    have hreached : ∀ whole, g.mixin? key = some whole → (key ∈ g.reachedNames context known ↔
        g.Leads (g.viewParts context known) context known key) := fun whole h =>
      mem_reachedNames_of_link hg.mixins (mixin_link_mem hg.mixins h) (hg.mixins key whole h)
    constructor
    · rintro ⟨⟨whole, hwhole, rfl⟩, hkey⟩
      exact ⟨whole, hwhole, (hreached whole hwhole).1 hkey, whole.restricts_scopedTo context true⟩
    · rintro ⟨whole, hwhole, hleads, hseen⟩
      obtain rfl := (Interface.restricts_iff_eq_scopedTo context true).1 hseen
      exact ⟨⟨whole, hwhole, rfl⟩, (hreached whole hwhole).2 hleads⟩
  callbackInterfaces key i := by
    rw [viewParts, lookup?_keepReached]
    refine and_congr_right fun hi => ?_
    exact mem_reachedNames_of_link hg.mixins (callbackInterface_link_mem hi)
      (hg.callbackInterfaces key i hi)
  callbackFunctions key f := by
    rw [viewParts, lookup?_keepReached]
    refine and_congr_right fun hf => ?_
    exact mem_reachedNames_of_link hg.mixins (callbackFunction_link_mem hf)
      (hg.callbackFunctions key f hf)
  dictionaries key d := by
    rw [dictionary?, viewParts, lookup?_keepReached]
    refine and_congr_right fun hd => ?_
    exact mem_reachedNames_of_link hg.mixins (dictionary_link_mem hd) (hg.dictionaries key d hd)
  typedefs := by
    rw [getD_typedefs_viewParts]
    refine List.filter_congr fun t ht => ?_
    rw [List.contains_eq_mem]
    exact decide_eq_decide.2 (mem_reachedNames_of_link hg.mixins (typedef_link_mem ht) rfl)
  enums key e h := by
    rw [enum?, viewParts, lookup?_keepReached] at h
    exact ⟨h.1, ((mem_reachedNames_iff hg.mixins).1 h.2).2⟩
  mentionedEnums key e name he hname hmention := by
    rw [enum?, viewParts, lookup?_keepReached]
    have htarget := (mem_targetsOf_links hg.mixins).2 hmention
    refine ⟨he, (mem_reachedNames_iff hg.mixins).2 ⟨?_, .mention hname hmention⟩⟩
    exact Links.mem_nodes_of_targetsOf htarget

/-- **A view keeps what it leads to.** -/
theorem view_keeps {g : Graph} (hg : g.NamesAreKeys) {context : String}
    (hcontext : Text.blank context = false) (known : List String) :
    ∃ v, g.view context known = .ok v ∧ g.Keeps v context known :=
  ⟨_, view_eq_ok g known hcontext, keeps_viewParts hg context known⟩

/-- An interface that the context `Window` sees, the dictionary that its property refers to and a
callback interface that only a hidden property refers to. -/
def paintGraph : Graph where
  interfaces := some (.ofList [("Canvas", {
    name := "Canvas"
    properties := some (.ofList [
      ("brush", { name := "brush", type := ⟨some (.named "Brush"), none, none⟩ }),
      ("port", {
        name := "port", type := ⟨some (.named "Port"), none, none⟩
        exposed := some (.ofList ["Worker"]) })])
    exposed := some (.ofList ["Window"]) })])
  dictionaries := some (.ofList [("Brush", {
    name := "Brush"
    members := some (.ofList [
      ("next", { name := "next", type := ⟨some (.named "Brush"), none, some true⟩ })]) })])
  callbackInterfaces := some (.ofList [("Port", { name := "Port" })])

theorem paintGraph_view_keeps :
    paintGraph.NamesAreKeys ∧ Text.blank "Window" = false ∧
      ∃ v, paintGraph.view "Window" [] = .ok v ∧ paintGraph.Keeps v "Window" [] := by
  have hg : paintGraph.NamesAreKeys := by decide +kernel
  have hcontext : Text.blank "Window" = false := by decide +kernel
  exact ⟨hg, hcontext, view_keeps hg hcontext []⟩

end Graph

end IdlDecls
