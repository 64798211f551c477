import IdlDecls.Proofs.View.Forced

/-!
# The view of a view

Seeing a view in its own context changes nothing (`Graph.view_again`): every member of it is visible,
so the same interfaces and namespaces are selected, and a path along which the search of the graph
reached something runs through kept definitions alone, so the search of the view finds it again. An
enumeration that is held only because it is known need not be found again, since what mentions it may
be gone.
-/

namespace IdlDecls

/-! ## Scoping twice -/

theorem map_filter_filter {α : Type} (p : String → α → Bool) (c : Option (Keyed α)) :
    (c.map (·.filter p)).map (·.filter p) = c.map (·.filter p) := by
  cases c with
  | none => rfl
  | some m =>
    refine congrArg some (Keyed.filter_eq_self fun key value hvalue => ?_)
    rw [Keyed.get?_filter, Option.filter_eq_some_iff] at hvalue
    exact hvalue.2

@[simp] theorem Interface.exposed_scopedTo (context : String) (inherits : Bool) (i : Interface) :
    (i.scopedTo context inherits).exposed = i.exposed := rfl

/-- What a context sees of an interface, it sees all of. -/
theorem Interface.scopedTo_scopedTo (context : String) (inherits : Bool) (i : Interface) :
    (i.scopedTo context inherits).scopedTo context inherits = i.scopedTo context inherits := by
  simp only [scopedTo, map_filter_filter, Option.filter_filter, Bool.and_self]

namespace Graph

variable {g : Graph} {context : String} {known : List String}

/-- A selected interface is selected as it is. -/
theorem selectInterface?_again {i j : Interface} (h : selectInterface? context known i = some j) :
    selectInterface? context known j = some j := by
  obtain ⟨hselected, rfl⟩ := selectInterface?_eq_some_iff.1 h
  refine selectInterface?_eq_some_iff.2 ⟨hselected, ?_⟩
  rw [Interface.exposed_scopedTo, Interface.scopedTo_scopedTo]

/-- A selected namespace is selected as it is. -/
theorem selectNamespace?_again {n m : Interface} (h : selectNamespace? context known n = some m) :
    selectNamespace? context known m = some m := by
  obtain ⟨hselected, rfl⟩ := selectNamespace?_eq_some_iff.1 h
  exact selectNamespace?_eq_some_iff.2 ⟨hselected, n.scopedTo_scopedTo context true⟩

theorem viewInterfaces_viewParts (hg : g.NamesAreKeys) :
    (g.viewParts context known).viewInterfaces context known = g.viewInterfaces context known := by
  refine Keyed.ext_get? fun key => ?_
  rw [get?_viewInterfaces (hg.viewParts context known).interfaces,
    interface?_viewParts_eq_bind hg.interfaces, get?_viewInterfaces hg.interfaces, Option.bind_assoc]
  refine Option.bind_congr fun i _ => ?_
  cases hselect : selectInterface? context known i with
  | none => rfl
  | some j => exact selectInterface?_again hselect

theorem viewNamespaces_viewParts :
    (g.viewParts context known).viewNamespaces context known = g.viewNamespaces context known := by
  have hall : ∀ m ∈ g.viewNamespaces context known,
      selectNamespace? context known m = some m := by
    intro m hm
    obtain ⟨n, -, hselect⟩ := List.mem_filterMap.1 hm
    exact selectNamespace?_again hselect
  rw [viewNamespaces, namespaces_viewParts, List.filterMap_congr hall, List.filterMap_some]

/-- A view of a view has the interfaces of the view. -/
theorem interface?_viewParts_viewParts (hg : g.NamesAreKeys) (key : String) :
    ((g.viewParts context known).viewParts context known).interface? key =
      (g.viewParts context known).interface? key := by
  rw [interface?_viewParts, viewInterfaces_viewParts hg, interface?_viewParts]

theorem namespaces_viewParts_viewParts :
    ((g.viewParts context known).viewParts context known).namespaces.getD [] =
      (g.viewParts context known).namespaces.getD [] := by
  rw [namespaces_viewParts, viewNamespaces_viewParts, namespaces_viewParts]

theorem get?_scopedMixins_viewParts (hg : g.NamesAreKeys) (key : String) :
    ((g.viewParts context known).scopedMixins context).get? key =
      (g.viewParts context known).mixin? key := by
  rw [get?_scopedMixins (hg.viewParts context known).mixins]
  cases hm : (g.viewParts context known).mixin? key with
  | none => rfl
  | some m =>
    obtain ⟨whole, -, -, hseen⟩ := ((keeps_viewParts hg context known).mixins key m).1 hm
    obtain rfl := (Interface.restricts_iff_eq_scopedTo context true).1 hseen
    exact congrArg some (whole.scopedTo_scopedTo context true)

/-! ## Paths through kept definitions -/

/-- What a definition with a reached name mentions, it still mentions in the view. -/
theorem Mentions.viewParts (hg : g.NamesAreKeys) {name other : String}
    (hname : g.Leads (g.viewParts context known) context known name)
    (h : g.Mentions (g.viewParts context known) context name other) :
    (g.viewParts context known).Mentions
      ((g.viewParts context known).viewParts context known) context name other := by
  have hkeeps := keeps_viewParts hg context known
  cases h with
  | interface hi hother =>
    exact .interface ((interface?_viewParts_viewParts hg _).trans hi) hother
  | «namespace» hn hother => exact .namespace (by rwa [namespaces_viewParts_viewParts]) hother
  | @mixin key _ m seen hm hseen hother =>
    have hkept : (g.viewParts context known).mixin? key = some seen :=
      (hkeeps.mixins key seen).2 ⟨m, hm, hg.mixins key m hm ▸ hname, hseen⟩
    obtain rfl := (Interface.restricts_iff_eq_scopedTo context true).1 hseen
    have hsame : (m.scopedTo context true).Restricts
        (Exposure.SeenUnder context (m.scopedTo context true).exposed) (m.scopedTo context true) :=
      (Interface.restricts_iff_eq_scopedTo context true).2 (m.scopedTo_scopedTo context true).symm
    exact .mixin (m := m.scopedTo context true) hkept hsame hother
  | @callbackInterface key _ i hi hother =>
    exact .callbackInterface
      ((hkeeps.callbackInterfaces key i).2 ⟨hi, hg.callbackInterfaces key i hi ▸ hname⟩) hother
  | @callbackFunction key _ f hf hother =>
    exact .callbackFunction
      ((hkeeps.callbackFunctions key f).2 ⟨hf, hg.callbackFunctions key f hf ▸ hname⟩) hother
  | @dictionary key _ d hd hother =>
    exact .dictionary ((hkeeps.dictionaries key d).2 ⟨hd, hg.dictionaries key d hd ▸ hname⟩) hother
  | @typedef _ t ht hother =>
    have hkept : t ∈ (g.viewParts context known).typedefs.getD [] := by
      rw [hkeeps.typedefs]
      exact List.mem_filter.2 ⟨ht, by simpa using hname⟩
    exact .typedef hkept hother

/-- **The view leads wherever the graph leads.** -/
theorem Leads.viewParts (hg : g.NamesAreKeys) {name : String}
    (h : g.Leads (g.viewParts context known) context known name) :
    (g.viewParts context known).Leads
      ((g.viewParts context known).viewParts context known) context known name := by
  induction h with
  | interface hi => exact .interface ((interface?_viewParts_viewParts hg _).trans hi)
  | «namespace» hn => exact .namespace (by rwa [namespaces_viewParts_viewParts])
  | known hname => exact .known hname
  | mention hname hother ih => exact .mention ih (hother.viewParts hg hname)

/-- A reached name is reached again if a definition of the view other than an enumeration goes by it,
or if it is not known. -/
theorem mem_reachedNames_viewParts (hg : g.NamesAreKeys) {name : String}
    (hname : name ∈ g.reachedNames context known)
    (h : (g.viewParts context known).Defines
        ((g.viewParts context known).viewParts context known) name ∨ name ∉ known) :
    name ∈ (g.viewParts context known).reachedNames context known := by
  have hv := hg.viewParts context known
  obtain ⟨-, hleads⟩ := (mem_reachedNames_iff hg.mixins).1 hname
  refine (mem_reachedNames_iff hv.mixins).2 ⟨(mem_nodes_links hv.mixins).2 ?_, hleads.viewParts hg⟩
  rcases h with h | hunknown
  · exact Or.inl h
  · cases hleads with
    | interface hi => exact Or.inl (.interface ((interface?_viewParts_viewParts hg _).trans hi))
    | «namespace» hn => exact Or.inl (.namespace (by rwa [namespaces_viewParts_viewParts]))
    | known hknown => exact absurd hknown hunknown
    | mention hother hmention => exact Or.inr ⟨_, hmention.viewParts hg hother⟩

/-! ## The second view -/

theorem keepReached_eq_unlessEmpty {α : Type} (reached : List String) (c : Option (Keyed α)) :
    keepReached reached c =
      ((c.getD ∅).filter fun key _ => reached.contains key).unlessEmpty := by
  cases c <;> rfl

/-- A collection that holds what is kept, and under reached keys, is kept as it is. -/
theorem keepReached_again {α : Type} {reached reached' : List String} {c c' : Option (Keyed α)}
    (hsame : ∀ key, lookup? c' key = lookup? (keepReached reached c) key)
    (hreached : ∀ key value, lookup? (keepReached reached c) key = some value → key ∈ reached') :
    keepReached reached' c' = keepReached reached c := by
  have hlookup : ∀ key, lookup? (keepReached reached' c') key = lookup? (keepReached reached c) key := by
    intro key
    apply Option.ext
    intro value
    rw [lookup?_keepReached, hsame]
    exact and_iff_left_of_imp (hreached key value)
  simp only [keepReached_eq_unlessEmpty, lookup?_unlessEmpty] at hlookup ⊢
  rw [Keyed.ext_get? hlookup]

/-- A list of which everything is kept is kept as it is. -/
theorem filter_listUnlessEmpty_again {α : Type} {l : List α} {p : α → Bool}
    (h : ∀ x ∈ l, p x = true) :
    ((listUnlessEmpty l).bind fun l => listUnlessEmpty (l.filter p)) = listUnlessEmpty l := by
  cases l with
  | nil => rfl
  | cons x rest => exact congrArg listUnlessEmpty (List.filter_eq_self.2 h)

theorem typedefs_viewParts_viewParts (hg : g.NamesAreKeys) :
    ((g.viewParts context known).viewParts context known).typedefs =
      (g.viewParts context known).typedefs := by
  have hreached : ∀ t ∈ (g.viewParts context known).typedefs.getD [],
      ((g.viewParts context known).reachedNames context known).contains t.name = true := by
    intro t ht
    have hkept := ht
    rw [getD_typedefs_viewParts, List.mem_filter, List.contains_iff_mem] at hkept
    exact List.contains_iff_mem.2 (mem_reachedNames_viewParts hg hkept.2 (Or.inl (.typedef ht)))
  rw [getD_typedefs_viewParts] at hreached
  rw [viewParts]
  simp only
  generalize (g.viewParts context known).reachedNames context known = reached at hreached ⊢
  rw [viewParts]
  cases htypedefs : g.typedefs with
  | none => rfl
  | some l =>
    rw [htypedefs] at hreached
    exact filter_listUnlessEmpty_again hreached

/-- The parts of a view are parts of its own view. -/
theorem viewParts_viewParts (hg : g.NamesAreKeys) (hknown : ∀ name ∈ known, g.enum? name = none) :
    (g.viewParts context known).viewParts context known = g.viewParts context known := by
  have hv := hg.viewParts context known
  refine (Graph.mk.injEq ..).mpr ⟨?_, ?_, ?_, ?_, ?_, ?_, ?_, ?_, rfl⟩
  · refine keepReached_again (fun _ => rfl) fun key f hf => ?_
    refine mem_reachedNames_viewParts hg (lookup?_keepReached.1 hf).2 (Or.inl ?_)
    exact hv.callbackFunctions key f hf ▸ Defines.callbackFunction hf
  · refine keepReached_again (fun _ => rfl) fun key i hi => ?_
    refine mem_reachedNames_viewParts hg (lookup?_keepReached.1 hi).2 (Or.inl ?_)
    exact hv.callbackInterfaces key i hi ▸ Defines.callbackInterface hi
  · refine keepReached_again (fun _ => rfl) fun key d hd => ?_
    refine mem_reachedNames_viewParts hg (lookup?_keepReached.1 hd).2 (Or.inl ?_)
    exact hv.dictionaries key d hd ▸ Defines.dictionary hd
  · refine keepReached_again (fun _ => rfl) fun key e he => ?_
    obtain ⟨he, hreached⟩ := lookup?_keepReached.1 he
    -- an enumeration has no link of its own: it is found again through what made it reached
    refine mem_reachedNames_viewParts hg hreached (Or.inr fun hmem => ?_)
    exact Option.some_ne_none e (he.symm.trans (hknown key hmem))
  · rw [viewInterfaces_viewParts hg]
  · refine keepReached_again (get?_scopedMixins_viewParts hg) fun key m hm => ?_
    refine mem_reachedNames_viewParts hg (lookup?_keepReached.1 hm).2 (Or.inl ?_)
    exact hv.mixins key m hm ▸ Defines.mixin hm
  · exact typedefs_viewParts_viewParts hg
  · rw [viewNamespaces_viewParts]

/-- **The view of a view is the view itself**, unless an enumeration is known. -/
theorem view_again {g : Graph} (hg : g.NamesAreKeys) {context : String}
    (hcontext : Text.blank context = false) {known : List String}
    (hknown : ∀ name ∈ known, g.enum? name = none) :
    ∃ v, g.view context known = .ok v ∧ v.view context known = .ok v := by
  refine ⟨_, view_eq_ok g known hcontext, ?_⟩
  rw [view_eq_ok _ known hcontext, viewParts_viewParts hg hknown]

/-- What windows see of a workshop, with a dictionary and an enumeration that a visible property leads
to, and another dictionary that is known. -/
def workshopGraph : Graph where
  interfaces := some (.ofList [("Bench", {
    name := "Bench"
    properties := some (.ofList [
      ("vice", { name := "vice", type := ⟨some (.named "Vice"), none, none⟩ }),
      ("forge", {
        name := "forge", type := ⟨some (.named "Forge"), none, none⟩
        exposed := some (.ofList ["Worker"]) })])
    exposed := some (.ofList ["Window"]) })])
  dictionaries := some (.ofList [
    ("Forge", { name := "Forge" }), ("Tongs", { name := "Tongs" }),
    ("Vice", {
      name := "Vice"
      members := some (.ofList [
        ("jaw", { name := "jaw", type := ⟨some (.named "Jaw"), none, none⟩ })]) })])
  enums := some (.ofList [("Jaw", { name := "Jaw", values := ["flat", "round"] })])

theorem workshopGraph_view_again :
    workshopGraph.NamesAreKeys ∧ Text.blank "Window" = false ∧
      (∀ name ∈ ["Tongs"], workshopGraph.enum? name = none) ∧
      ∃ v, workshopGraph.view "Window" ["Tongs"] = .ok v ∧ v.view "Window" ["Tongs"] = .ok v := by
  have hg : workshopGraph.NamesAreKeys := by decide +kernel
  have hcontext : Text.blank "Window" = false := by decide +kernel
  have hknown : ∀ name ∈ ["Tongs"], workshopGraph.enum? name = none := by decide +kernel
  exact ⟨hg, hcontext, hknown, view_again hg hcontext hknown⟩

end Graph

end IdlDecls
