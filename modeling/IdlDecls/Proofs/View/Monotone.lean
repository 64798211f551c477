import IdlDecls.Proofs.View.Kept

/-!
# Views with more known names

A known name selects the interface and the namespaces that go by it and is one more root of the search.
It takes nothing away: how a context sees a definition does not depend on what is known, and more links
and roots reach more. So the view with more known names contains the view with fewer, and two lists with
the same names give the same view, whatever the order and the repetitions (`Graph.view_monotone`).
-/

namespace IdlDecls

/-! ## Searches -/

namespace Links

variable {links links' : Links} (hlinks : ∀ link ∈ links, link ∈ links')
include hlinks

theorem targetsOf_mono {name target : String} (h : target ∈ links.targetsOf name) :
    target ∈ links'.targetsOf name := by
  obtain ⟨link, hlink, hsource, htarget⟩ := mem_targetsOf.1 h
  exact mem_targetsOf.2 ⟨link, hlinks link hlink, hsource, htarget⟩

theorem nodes_mono {name : String} (h : name ∈ links.nodes) : name ∈ links'.nodes := by
  obtain ⟨link, hlink, hname⟩ := mem_nodes.1 h
  exact mem_nodes.2 ⟨link, hlinks link hlink, hname⟩

variable {roots roots' : List String} (hroots : ∀ name ∈ roots, name ∈ roots')
include hroots

theorem Reachable.mono {name : String} (h : links.Reachable roots name) :
    links'.Reachable roots' name := by
  induction h with
  | root hroot => exact .root (hroots _ hroot)
  | target _ htarget ih => exact .target ih (targetsOf_mono hlinks htarget)

/-- More links and roots reach more. -/
theorem reach_mono {name : String} (h : name ∈ links.reach roots) : name ∈ links'.reach roots' := by
  obtain ⟨hnode, hreach⟩ := mem_reach_iff.1 h
  exact mem_reach_iff.2 ⟨nodes_mono hlinks hnode, hreach.mono hlinks hroots⟩

end Links

namespace Graph

/-! ## Containment -/

/-- Every definition of a graph is in another graph as it is, type definitions and namespaces in the
same order. -/
structure ContainedIn (v w : Graph) : Prop where
  interfaces : ∀ key i, v.interface? key = some i → w.interface? key = some i
  mixins : ∀ key m, v.mixin? key = some m → w.mixin? key = some m
  callbackInterfaces : ∀ key i, lookup? v.callbackInterfaces key = some i →
    lookup? w.callbackInterfaces key = some i
  callbackFunctions : ∀ key f, lookup? v.callbackFunctions key = some f →
    lookup? w.callbackFunctions key = some f
  dictionaries : ∀ key d, v.dictionary? key = some d → w.dictionary? key = some d
  enums : ∀ key e, v.enum? key = some e → w.enum? key = some e
  typedefs : (v.typedefs.getD []).Sublist (w.typedefs.getD [])
  namespaces : (v.namespaces.getD []).Sublist (w.namespaces.getD [])
  extra : v.extra = w.extra

/-- Selecting more from a list gives a longer list. -/
theorem sublist_filterMap {α β : Type} {f f' : α → Option β}
    (h : ∀ x y, f x = some y → f' x = some y) (l : List α) :
    (l.filterMap f).Sublist (l.filterMap f') := by
  induction l with
  | nil => exact .slnil
  | cons x rest ih =>
    cases hx : f x with
    | some y =>
      rw [List.filterMap_cons_some hx, List.filterMap_cons_some (h x y hx)]
      exact ih.cons_cons y
    | none =>
      rw [List.filterMap_cons_none hx]
      cases hx' : f' x with
      | none => rwa [List.filterMap_cons_none hx']
      | some y =>
        rw [List.filterMap_cons_some hx']
        exact ih.cons y

/-! ## Selections -/

section Known

variable {g : Graph} {context : String} {known more : List String}
  (hmore : ∀ name ∈ known, name ∈ more)
include hmore

/-- A selected interface is seen in the same way when more is known. -/
theorem selectInterface?_mono {i j : Interface} (h : selectInterface? context known i = some j) :
    selectInterface? context more i = some j := by
  rw [selectInterface?_eq_some_iff] at h ⊢
  exact ⟨h.1.imp_right (hmore i.name), h.2⟩

theorem selectNamespace?_mono {n m : Interface} (h : selectNamespace? context known n = some m) :
    selectNamespace? context more n = some m := by
  rw [selectNamespace?_eq_some_iff] at h ⊢
  exact ⟨h.1.imp_right (hmore n.name), h.2⟩

theorem interface?_viewParts_mono (hg : g.NamesAreKeys) {key : String} {i : Interface}
    (h : (g.viewParts context known).interface? key = some i) :
    (g.viewParts context more).interface? key = some i := by
  rw [interface?_viewParts_eq_bind hg.interfaces, Option.bind_eq_some_iff] at h ⊢
  obtain ⟨whole, hwhole, hselected⟩ := h
  exact ⟨whole, hwhole, selectInterface?_mono hmore hselected⟩

theorem viewNamespaces_mono (g : Graph) (context : String) :
    (g.viewNamespaces context known).Sublist (g.viewNamespaces context more) :=
  sublist_filterMap (fun _ _ => selectNamespace?_mono hmore) _

/-! ## What is reached -/

theorem links_mono (hg : g.NamesAreKeys) :
    ∀ link ∈ g.links context known, link ∈ g.links context more := by
  have hinterfaces : ∀ i ∈ (g.viewInterfaces context known).values,
      i ∈ (g.viewInterfaces context more).values := by
    intro i hi
    obtain ⟨key, hi⟩ := mem_values_viewInterfaces.1 hi
    exact mem_values_viewInterfaces.2 ⟨key, interface?_viewParts_mono hmore hg hi⟩
  have hnamespaces := (viewNamespaces_mono hmore g context).subset
  intro link hlink
  simp only [links, List.mem_append, List.mem_map] at hlink ⊢
  -- the links of interfaces and of namespaces alone depend on what is known
  refine hlink.imp_left (Or.imp_left (Or.imp_left (Or.imp_left (Or.imp_left ?_))))
  rintro (⟨i, hi, rfl⟩ | ⟨n, hn, rfl⟩)
  · exact Or.inl ⟨i, hinterfaces i hi, rfl⟩
  · exact Or.inr ⟨n, hnamespaces hn, rfl⟩

theorem roots_mono (hg : g.NamesAreKeys) :
    ∀ name ∈ g.roots context known, name ∈ g.roots context more := by
  intro name hname
  rcases mem_roots.1 hname with ⟨i, key, hi, rfl⟩ | ⟨n, hn, rfl⟩ | hknown
  · exact mem_roots.2 (Or.inl ⟨i, key, interface?_viewParts_mono hmore hg hi, rfl⟩)
  · rw [namespaces_viewParts] at hn
    have hmem := (viewNamespaces_mono hmore g context).subset hn
    exact mem_roots.2 (Or.inr (Or.inl ⟨n, by rwa [namespaces_viewParts], rfl⟩))
  · exact mem_roots.2 (Or.inr (Or.inr (hmore name hknown)))

/-- **More known names reach more.** -/
theorem reachedNames_mono (hg : g.NamesAreKeys) {name : String}
    (h : name ∈ g.reachedNames context known) : name ∈ g.reachedNames context more :=
  Links.reach_mono (links_mono hmore hg) (roots_mono hmore hg) h

/-! ## Views -/

/-- **The view with more known names contains the view with fewer.** -/
theorem containedIn_viewParts (hg : g.NamesAreKeys) :
    (g.viewParts context known).ContainedIn (g.viewParts context more) := by
  have hkept : ∀ {α : Type} (c : Option (Keyed α)) (key : String) (value : α),
      lookup? (keepReached (g.reachedNames context known) c) key = some value →
        lookup? (keepReached (g.reachedNames context more) c) key = some value := by
    intro α c key value h
    rw [lookup?_keepReached] at h ⊢
    exact ⟨h.1, reachedNames_mono hmore hg h.2⟩
  exact
    { interfaces := fun key i => interface?_viewParts_mono hmore hg
      mixins := fun key m => hkept (some (g.scopedMixins context)) key m
      callbackInterfaces := fun key i => hkept _ key i
      callbackFunctions := fun key f => hkept _ key f
      dictionaries := fun key d => hkept _ key d
      enums := fun key e => hkept _ key e
      typedefs := by
        rw [getD_typedefs_viewParts, getD_typedefs_viewParts]
        refine List.monotone_filter_right _ fun t ht => ?_
        rw [List.contains_iff_mem] at ht ⊢
        exact reachedNames_mono hmore hg ht
      namespaces := by
        rw [namespaces_viewParts, namespaces_viewParts]
        exact viewNamespaces_mono hmore g context
      extra := rfl }

omit hmore in
/-- Lists with the same names give the same view. -/
theorem viewParts_congr (hg : g.NamesAreKeys) (hsame : ∀ name, name ∈ known ↔ name ∈ more) :
    g.viewParts context known = g.viewParts context more := by
  have hreached : ∀ name, (g.reachedNames context known).contains name =
      (g.reachedNames context more).contains name := by
    intro name
    rw [List.contains_eq_mem, List.contains_eq_mem, decide_eq_decide]
    exact ⟨reachedNames_mono (fun name => (hsame name).1) hg,
      reachedNames_mono (fun name => (hsame name).2) hg⟩
  have hinterface : selectInterface? context known = selectInterface? context more := by
    funext i
    refine Option.ext fun j => ?_
    rw [selectInterface?_eq_some_iff, selectInterface?_eq_some_iff, hsame]
  have hnamespace : selectNamespace? context known = selectNamespace? context more := by
    funext n
    refine Option.ext fun m => ?_
    rw [selectNamespace?_eq_some_iff, selectNamespace?_eq_some_iff, hsame]
  simp only [viewParts, viewInterfaces, viewNamespaces, hinterface, hnamespace, keepReached,
    hreached]

end Known

/-- **Views are monotone in the known names.** If every name of one list is in another, the view with
the second list contains the view with the first, every definition as it is; and if the lists have the
same names, in whatever order and however often, the views are the same. -/
theorem view_monotone {g : Graph} (hg : g.NamesAreKeys) {context : String}
    (hcontext : Text.blank context = false) {known more : List String}
    (hmore : ∀ name ∈ known, name ∈ more) :
    ∃ v w, g.view context known = .ok v ∧ g.view context more = .ok w ∧ v.ContainedIn w ∧
      ((∀ name ∈ more, name ∈ known) → v = w) := by
  refine ⟨_, _, view_eq_ok g known hcontext, view_eq_ok g more hcontext,
    containedIn_viewParts hmore hg, fun hless => ?_⟩
  exact viewParts_congr hg fun name => ⟨hmore name, hless name⟩

/-- A graph of an archive: windows see its reading room, but not its stacks. -/
def archiveGraph : Graph where
  interfaces := some (.ofList [
    ("ReadingRoom", { name := "ReadingRoom", exposed := some (.ofList ["Window"]) }),
    ("Stack", {
      name := "Stack"
      properties := some (.ofList [
        ("shelf", { name := "shelf", type := ⟨some (.named "Shelf"), none, none⟩ })])
      exposed := some (.ofList ["Worker"]) })])
  dictionaries := some (.ofList [("Shelf", { name := "Shelf" })])

/-- The stacks come to the view when they are known, and no more of them when they are named twice. -/
theorem archiveGraph_view_monotone :
    archiveGraph.NamesAreKeys ∧ Text.blank "Window" = false ∧
      (∃ v w, archiveGraph.view "Window" [] = .ok v ∧
        archiveGraph.view "Window" ["Stack", "Stack"] = .ok w ∧ v.ContainedIn w ∧
        v.interface? "Stack" = none ∧ (w.interface? "Stack").isSome = true) ∧
      archiveGraph.view "Window" ["Stack", "Stack"] = archiveGraph.view "Window" ["Stack"] := by
  have hg : archiveGraph.NamesAreKeys := by decide +kernel
  have hcontext : Text.blank "Window" = false := by decide +kernel
  have hmore : ∀ name ∈ ([] : List String), name ∈ ["Stack", "Stack"] := by decide
  have honce : ∀ name ∈ ["Stack", "Stack"], name ∈ ["Stack"] := by decide
  obtain ⟨v, w, hv, hw, hcontained, -⟩ := view_monotone hg hcontext hmore
  obtain ⟨twice, once, htwice, hone, -, hsame⟩ := view_monotone hg hcontext honce
  have hstack : (archiveGraph.viewInterfaces "Window" []).get? "Stack" = none ∧
      ((archiveGraph.viewInterfaces "Window" ["Stack", "Stack"]).get? "Stack").isSome = true := by
    decide +kernel
  rw [← interface?_viewParts, ← interface?_viewParts] at hstack
  refine ⟨hg, hcontext, ⟨v, w, hv, hw, hcontained, ?_⟩, ?_⟩
  · rw [view_eq_ok _ _ hcontext] at hv hw
    cases hv
    cases hw
    exact hstack
  · rw [htwice, hone, hsame (by decide)]

end Graph

end IdlDecls
