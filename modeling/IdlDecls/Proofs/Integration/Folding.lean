import IdlDecls.Integration.Fold
import IdlDecls.Proofs.Keyed.Joined
import IdlDecls.Proofs.Runs

/-!
# What a fold does to the graph

One step of folding replaces one entry or does nothing (`foldPartialInterface_cases`,
`foldPartialDictionary_cases`, `foldInclude_cases`), and whatever a fold is to keep is shown of these
cases. The extra fields of the graph are no entries, so every fold keeps them.

A partial interface is exposed before it is merged, and the check of that exposure refuses nothing
(`Interface.exposeFor_eq`); what is folded is a merge of members under an exposure
(`Interface.foldPartial_iff_mergeMembers`).
-/

namespace IdlDecls

/-! ## Exposing a partial definition -/

theorem isEmpty_of_nonempty? {place : Option Exposure} {e : Exposure}
    (h : Exposure.nonempty? place = some e) : e.isEmpty = false := by
  rw [Exposure.nonempty?, Option.filter_eq_some_iff] at h
  simpa using h.2

theorem isEmpty_of_effectiveExposure {own parent : Option Exposure} {e : Exposure}
    (h : effectiveExposure own parent = some e) : e.isEmpty = false := by
  rcases Option.or_eq_some_iff.1 h with hown | ⟨-, hparent⟩
  · exact isEmpty_of_nonempty? hown
  · exact isEmpty_of_nonempty? hparent

namespace Interface

/-- A partial interface with the exposures that it is merged with. -/
def exposedFor (base addition : Interface) : Interface :=
  match effectiveExposure addition.exposed base.exposed with
  | some exposure => addition.expose .inherit exposure
  | none => addition

/-- **Exposing a partial interface never fails**: the check refuses an empty exposure, and an empty
exposure counts as none before the check is reached. -/
theorem exposeFor_eq (base addition : Interface) :
    base.exposeFor addition = .ok (base.exposedFor addition) := by
  rw [exposeFor, exposedFor]
  cases he : effectiveExposure addition.exposed base.exposed with
  | none => rfl
  | some e => simp [resolveExposure, isEmpty_of_effectiveExposure he]

theorem foldPartial_iff_mergeMembers {base addition merged : Interface} :
    base.foldPartial addition = .ok merged ↔
      base.mergeMembers .override (base.exposedFor addition) = .ok merged := by
  rw [foldPartial, bind_eq_ok_iff]
  simp only [exposeFor_eq, Except.ok.injEq, exists_eq_left', Merging.toIntegration,
    mapError_eq_ok_iff]

end Interface

/-! ## Steps -/

/-- Replacing an entry is seen in its collection under its name. -/
theorem Collection.get?_replace (c d : Collection) (g : Graph) (name key : String) (i : Interface) :
    d.get? (c.replace g name i) key =
      if d = c ∧ key = name then (d.get? g key).map fun _ => i else d.get? g key := by
  cases c with
  | interfaces =>
    cases d with
    | interfaces =>
      simpa [Collection.get?, Collection.replace, Graph.interface?] using
        lookup?_map_modify g.interfaces name key fun _ => i
    | mixins => rfl
  | mixins =>
    cases d with
    | interfaces => rfl
    | mixins =>
      simpa [Collection.get?, Collection.replace, Graph.mixin?] using
        lookup?_map_modify g.mixins name key fun _ => i

/-- No collection gains or loses an entry by that. -/
theorem Collection.isSome_get?_replace (c d : Collection) (g : Graph) (name key : String)
    (i : Interface) : (d.get? (c.replace g name i) key).isSome = (d.get? g key).isSome := by
  rw [Collection.get?_replace]
  split <;> simp

/-- What is located is an entry of its collection. -/
theorem Graph.get?_of_locate? {g : Graph} {name : String} {c : Collection} {i : Interface} :
    ∀ {targets : List Collection}, g.locate? name targets = some (c, i) → c.get? g name = some i
  | [], h => by cases h
  | d :: rest, h => by
    rw [Graph.locate?] at h
    cases hd : d.get? g name with
    | some j =>
      rw [hd] at h
      cases h
      exact hd
    | none =>
      rw [hd] at h
      exact Graph.get?_of_locate? h

/-- A missing definition is left out of the graph as well. -/
theorem Folded.graph_of_missing {options : Options} {kind : Reference} {name : String}
    {state next : Folded} {skipped : Report}
    (h : state.missing options kind name skipped = .ok next) : next.graph = state.graph := by
  rw [Folded.missing] at h
  cases hu : options.unresolved with
  | skip => rw [hu] at h; cases h; rfl
  | fail => rw [hu] at h; cases h

/-- **What folding a partial interface or mixin does to the graph**: the entry that is located for it
is replaced by its merge, or nothing happens. -/
theorem foldPartialInterface_cases {options : Options} {targets : List Collection}
    {state next : Folded} {addition : Interface}
    (h : foldPartialInterface options targets state addition = .ok next) :
    (state.graph.locate? addition.name targets = none ∧ next.graph = state.graph) ∨
      ∃ c base merged, state.graph.locate? addition.name targets = some (c, base) ∧
        base.foldPartial addition = .ok merged ∧
        next.graph = c.replace state.graph addition.name merged := by
  rw [foldPartialInterface] at h
  cases hl : state.graph.locate? addition.name targets with
  | none =>
    rw [hl] at h
    exact Or.inl ⟨rfl, Folded.graph_of_missing h⟩
  | some found =>
    obtain ⟨c, base⟩ := found
    simp only [hl] at h
    cases hm : base.foldPartial addition with
    | error e => simp [hm] at h
    | ok merged =>
      simp only [hm] at h
      cases h
      exact Or.inr ⟨c, base, merged, rfl, hm, rfl⟩

/-- What folding a partial dictionary does to the graph: the dictionary of its name is replaced by its
merge, or nothing happens. -/
theorem foldPartialDictionary_cases {options : Options} {state next : Folded}
    {addition : Dictionary} (h : foldPartialDictionary options state addition = .ok next) :
    (state.graph.dictionary? addition.name = none ∧ next.graph = state.graph) ∨
      ∃ base merged, state.graph.dictionary? addition.name = some base ∧
        base.mergeMembers .override addition = .ok merged ∧
        next.graph = { state.graph with
          dictionaries := state.graph.dictionaries.map (·.modify addition.name fun _ => merged) } := by
  rw [foldPartialDictionary] at h
  cases hd : state.graph.dictionary? addition.name with
  | none =>
    rw [hd] at h
    exact Or.inl ⟨rfl, Folded.graph_of_missing h⟩
  | some base =>
    simp only [hd] at h
    cases hm : base.mergeMembers .override addition with
    | error e => simp [hm] at h
    | ok merged =>
      simp only [hm] at h
      cases h
      exact Or.inr ⟨base, merged, rfl, hm, rfl⟩

/-- What folding an includes statement does to the graph: its target includes one more mixin, or
nothing happens. -/
theorem foldInclude_cases {options : Options} {state next : Folded} {statement : Include}
    (h : foldInclude options state statement = .ok next) :
    (state.graph.interface? statement.target = none ∧ next.graph = state.graph) ∨
      ∃ i, state.graph.interface? statement.target = some i ∧
        next.graph = Collection.interfaces.replace state.graph statement.target
          (i.including statement.includes) := by
  rw [foldInclude] at h
  cases hi : state.graph.interface? statement.target with
  | none =>
    rw [hi] at h
    exact Or.inl ⟨rfl, Folded.graph_of_missing h⟩
  | some i =>
    simp only [hi] at h
    cases h
    exact Or.inr ⟨i, rfl, rfl⟩

/-! ## Folds -/

/-- What no fold into an entry or into a dictionary shows in, folding leaves as it is. -/
theorem frame_foldPartials_of_entry {τ : Type} (view : Graph → τ)
    (hentry : ∀ (c : Collection) (g : Graph) name base addition merged, c.get? g name = some base →
      base.foldPartial addition = .ok merged → view (c.replace g name merged) = view g)
    (hdictionary : ∀ (g : Graph) name base addition merged, g.dictionary? name = some base →
      base.mergeMembers .override addition = .ok merged →
      view { g with dictionaries := g.dictionaries.map (·.modify name fun _ => merged) } = view g)
    {options : Options} {fragments : List Fragment} {state next : Folded}
    (h : foldPartials options fragments state = .ok next) : view next.graph = view state.graph := by
  have hinterfaces : ∀ targets (l : List Interface) (s t : Folded),
      l.foldlM (foldPartialInterface options targets) s = .ok t → view t.graph = view s.graph := by
    intro targets l s t ht
    refine foldlM_keeps (P := fun u => view u.graph = view s.graph) ?_ rfl ht
    intro a _ u v hu hv
    rcases foldPartialInterface_cases hv with ⟨-, hg⟩ | ⟨c, base, merged, hl, hm, hg⟩
    · rw [hg, hu]
    · rw [hg, hentry c u.graph _ base a merged (Graph.get?_of_locate? hl) hm, hu]
  have hdictionaries : ∀ (l : List Dictionary) (s t : Folded),
      l.foldlM (foldPartialDictionary options) s = .ok t → view t.graph = view s.graph := by
    intro l s t ht
    refine foldlM_keeps (P := fun u => view u.graph = view s.graph) ?_ rfl ht
    intro d _ u v hu hv
    rcases foldPartialDictionary_cases hv with ⟨-, hg⟩ | ⟨base, merged, hd, hm, hg⟩
    · rw [hg, hu]
    · rw [hg, hdictionary u.graph _ base d merged hd hm, hu]
  refine foldlM_keeps (P := fun s => view s.graph = view state.graph) ?_ rfl h
  intro f _ s t hs ht
  simp only [foldFragment, bind_eq_ok_iff] at ht
  obtain ⟨interfaces, hi, mixins, hm, hd⟩ := ht
  rw [hdictionaries _ _ _ hd, hinterfaces _ _ _ _ hm, hinterfaces _ _ _ _ hi, hs]

/-- What neither a replaced entry nor a replaced dictionary shows in, folding leaves as it is. -/
theorem frame_foldPartials {τ : Type} (view : Graph → τ)
    (hentry : ∀ (c : Collection) (g : Graph) name i, view (c.replace g name i) = view g)
    (hdictionary : ∀ (g : Graph) dictionaries, view { g with dictionaries } = view g)
    {options : Options} {fragments : List Fragment} {state next : Folded}
    (h : foldPartials options fragments state = .ok next) : view next.graph = view state.graph :=
  frame_foldPartials_of_entry view (fun c g name _ _ merged _ _ => hentry c g name merged)
    (fun g _ _ _ _ _ _ => hdictionary g _) h

theorem frame_foldIncludes {τ : Type} (view : Graph → τ)
    (hentry : ∀ (c : Collection) (g : Graph) name i, view (c.replace g name i) = view g)
    {options : Options} {fragments : List Fragment} {state next : Folded}
    (h : foldIncludes options fragments state = .ok next) : view next.graph = view state.graph := by
  refine foldlM_keeps (P := fun s => view s.graph = view state.graph) ?_ rfl h
  intro a _ s t hs ht
  rcases foldInclude_cases ht with ⟨-, hg⟩ | ⟨i, -, hg⟩
  · rw [hg, hs]
  · rw [hg, hentry, hs]

/-- Folding leaves the extra fields of a graph as they are. -/
theorem extra_foldPartials {options : Options} {fragments : List Fragment} {state next : Folded}
    (h : foldPartials options fragments state = .ok next) : next.graph.extra = state.graph.extra :=
  frame_foldPartials Graph.extra (fun c _ _ _ => by cases c <;> rfl) (fun _ _ => rfl) h

theorem extra_foldIncludes {options : Options} {fragments : List Fragment} {state next : Folded}
    (h : foldIncludes options fragments state = .ok next) : next.graph.extra = state.graph.extra :=
  frame_foldIncludes Graph.extra (fun c _ _ _ => by cases c <;> rfl) h

end IdlDecls
