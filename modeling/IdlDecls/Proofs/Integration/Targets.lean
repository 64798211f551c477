import IdlDecls.Proofs.Integration.Isolation

/-!
# The targets of partial definitions

Folding replaces entries and adds none, so whatever is folded, a name has its target in the same
collection (`Graph.targetOf?`). What becomes of one entry is then a matter of the partial definitions
whose target it is: if each of them adds what it gives to what is known of the entry, so does a whole
fold (`Graph.HoldsEntry.foldPartials`).
-/

namespace IdlDecls

/-! ## Targets -/

/-- The collection in which a graph finds the target of a name. -/
def Graph.targetOf? (g : Graph) (name : String) (targets : List Collection) : Option Collection :=
  (g.locate? name targets).map (·.1)

/-- Replacing entries leaves the targets of all names. -/
theorem Graph.targetOf?_congr {g g' : Graph} {name : String}
    (h : ∀ c : Collection, (c.get? g name).isSome = (c.get? g' name).isSome)
    (targets : List Collection) : g.targetOf? name targets = g'.targetOf? name targets := by
  induction targets with
  | nil => rfl
  | cons c rest ih =>
    have hc := h c
    simp only [targetOf?, locate?] at ih ⊢
    cases hi : c.get? g name <;> cases hi' : c.get? g' name <;> simp [hi, hi'] at hc ⊢
    exact ih

/-! ## What an entry receives -/

section Entry

variable {τ : Type} (g : Graph) (c : Collection) (name : String)

/-- The entry of a collection with a name after some folding: it is still there, `P` holds of it, and
the name has its targets where the graph `g` has them. -/
structure Graph.HoldsEntry (P : Interface → Prop) (state : Folded) : Prop where
  entry : ∃ i, c.get? state.graph name = some i ∧ P i
  targets : ∀ targets, state.graph.targetOf? name targets = g.targetOf? name targets

variable (G : Interface → τ → Prop)

/-- A partial definition is folded into the entry and gives it something. -/
def Graph.GivesEntry (targets : List Collection) (addition : Interface) (x : τ) : Prop :=
  addition.name = name ∧ g.targetOf? name targets = some c ∧ G addition x

/-- Some partial definition of a fragment is folded into the entry and gives it something. -/
def Graph.FragmentGivesEntry (f : Fragment) (x : τ) : Prop :=
  (∃ a ∈ f.partialInterfaces, g.GivesEntry c name G partialInterfaceTargets a x) ∨
    ∃ a ∈ f.partialMixins, g.GivesEntry c name G partialMixinTargets a x

variable {g c name G} {P : (τ → Prop) → Interface → Prop} {known : τ → Prop} {options : Options}
  {state next : Folded}

/-- **One step** folds a partial definition into the entry if it bears the name and the entry is its
target, and leaves the entry alone otherwise. -/
theorem Graph.HoldsEntry.step_cases {Q : Interface → Prop} {targets : List Collection}
    {addition : Interface} (hs : g.HoldsEntry c name Q state)
    (h : foldPartialInterface options targets state addition = .ok next) :
    ((addition.name = name ∧ g.targetOf? name targets = some c) ∧
        g.HoldsEntry c name (fun merged => ∃ base, Q base ∧ base.foldPartial addition = .ok merged)
          next) ∨
      (¬ (addition.name = name ∧ g.targetOf? name targets = some c) ∧
        g.HoldsEntry c name Q next) := by
  have htarget : state.graph.targetOf? name targets = g.targetOf? name targets := hs.targets targets
  rcases foldPartialInterface_cases h with ⟨hl, hg⟩ | ⟨d, base, merged, hl, hm, hg⟩
  · refine Or.inr ⟨?_, by rw [hg]; exact hs.entry, by rw [hg]; exact hs.targets⟩
    rintro ⟨rfl, htarget'⟩
    rw [← htarget, targetOf?, hl] at htarget'
    cases htarget'
  have hpresent : ∀ e : Collection,
      (e.get? next.graph name).isSome = (e.get? state.graph name).isSome := fun e => by
    rw [hg, Collection.isSome_get?_replace]
  have htargets : ∀ targets, next.graph.targetOf? name targets = g.targetOf? name targets :=
    fun targets => (targetOf?_congr hpresent targets).trans (hs.targets targets)
  obtain ⟨i, hi, hknown⟩ := hs.entry
  by_cases hfolded : c = d ∧ name = addition.name
  · obtain ⟨rfl, rfl⟩ := hfolded
    obtain rfl : base = i := Option.some.inj ((get?_of_locate? hl).symm.trans hi)
    refine Or.inl ⟨⟨rfl, by rw [← htarget, targetOf?, hl]; rfl⟩, ⟨merged, ?_, base, hknown, hm⟩,
      htargets⟩
    rw [hg, Collection.get?_replace, if_pos ⟨rfl, rfl⟩, hi, Option.map_some]
  · refine Or.inr ⟨?_, ⟨i, by rw [hg, Collection.get?_replace, if_neg hfolded, hi], hknown⟩,
      htargets⟩
    rintro ⟨rfl, htarget'⟩
    rw [← htarget, targetOf?, hl] at htarget'
    exact hfolded ⟨(Option.some.inj htarget').symm, rfl⟩

theorem Graph.HoldsEntry.mono {Q Q' : Interface → Prop} (hQ : ∀ i, Q i → Q' i)
    (hs : g.HoldsEntry c name Q state) : g.HoldsEntry c name Q' state where
  entry := by
    obtain ⟨i, hi, hknown⟩ := hs.entry
    exact ⟨i, hi, hQ i hknown⟩
  targets := hs.targets

/-- If folding adds what it gives to what is known of an entry, it does so in a graph. -/
theorem Graph.HoldsEntry.step {targets : List Collection} {addition : Interface}
    (hP : ∀ known base addition merged, P known base → base.foldPartial addition = .ok merged →
      P (fun x => known x ∨ G addition x) merged)
    (hs : g.HoldsEntry c name (P known) state)
    (h : foldPartialInterface options targets state addition = .ok next) :
    g.HoldsEntry c name (P fun x => known x ∨ g.GivesEntry c name G targets addition x) next := by
  rcases hs.step_cases h with ⟨hgiven, hnext⟩ | ⟨hmiss, hnext⟩
  · have hgives : (fun x => known x ∨ g.GivesEntry c name G targets addition x) =
        fun x => known x ∨ G addition x := by
      funext x
      rw [GivesEntry, and_iff_right hgiven.1, and_iff_right hgiven.2]
    rw [hgives]
    exact hnext.mono fun merged ⟨base, hknown, hm⟩ => hP known base addition merged hknown hm
  · -- a step that does not reach the entry gives nothing
    have hgives : (fun x => known x ∨ g.GivesEntry c name G targets addition x) = known := by
      funext x
      exact propext (or_iff_left fun hgives => hmiss ⟨hgives.1, hgives.2.1⟩)
    rwa [hgives]

theorem Graph.HoldsEntry.foldFragment {f : Fragment}
    (hP : ∀ known base addition merged, P known base → base.foldPartial addition = .ok merged →
      P (fun x => known x ∨ G addition x) merged)
    (hs : g.HoldsEntry c name (P known) state) (h : foldFragment options state f = .ok next) :
    g.HoldsEntry c name (P fun x => known x ∨ g.FragmentGivesEntry c name G f x) next := by
  simp only [IdlDecls.foldFragment, bind_eq_ok_iff] at h
  obtain ⟨interfaces, hinterfaces, mixins, hmixins, hdictionaries⟩ := h
  have hi := foldlM_gathers (P := fun known => g.HoldsEntry c name (P known))
    (fun _ _ _ _ hs ht => hs.step hP ht) hs hinterfaces
  have hm := foldlM_gathers (P := fun known => g.HoldsEntry c name (P known))
    (fun _ _ _ _ hs ht => hs.step hP ht) hi hmixins
  have hentry : ∀ d : Collection, d.get? next.graph name = d.get? mixins.graph name :=
    congrFun (entriesAt_foldPartialDictionaries hdictionaries)
  refine ⟨?_, fun targets =>
    (targetOf?_congr (fun d => by rw [hentry d]) targets).trans (hm.targets targets)⟩
  obtain ⟨i, hi, hknown⟩ := hm.entry
  simp only [or_assoc] at hknown
  exact ⟨i, (hentry c).trans hi, hknown⟩

/-- **A whole fold** adds what the partial definitions of all fragments give. -/
theorem Graph.HoldsEntry.foldPartials {fragments : List Fragment}
    (hP : ∀ known base addition merged, P known base → base.foldPartial addition = .ok merged →
      P (fun x => known x ∨ G addition x) merged)
    (hs : g.HoldsEntry c name (P known) state)
    (h : foldPartials options fragments state = .ok next) :
    g.HoldsEntry c name
      (P fun x => known x ∨ ∃ f ∈ fragments, g.FragmentGivesEntry c name G f x) next :=
  foldlM_gathers (P := fun known => g.HoldsEntry c name (P known))
    (fun _ _ _ _ hs ht => hs.foldFragment hP ht) hs h

end Entry

end IdlDecls
