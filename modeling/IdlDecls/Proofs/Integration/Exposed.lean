import IdlDecls.Proofs.Integration.Targets
import IdlDecls.Proofs.Merge.Members
import IdlDecls.View.Visible

/-!
# What partial definitions do to exposures

Folding partial definitions leaves the exposure of a definition alone. A member of it keeps the
contexts of its own exposure and gains those that partial definitions give it, so a member with an
exposure of its own stays visible wherever it was. A member without one was seen through its
definition, and the first contexts that it is given take the place of that: it is hidden wherever
none of them covers (`foldPartials_hidden_iff`).
-/

namespace IdlDecls

open Merge Merging

/-! ## Gained contexts -/

/-- The contexts of one exposure are those of another and the given ones. -/
def Gains (given : String → Prop) (old new : Option Exposure) : Prop :=
  ∀ context, context ∈ contextsOf new ↔ context ∈ contextsOf old ∨ given context

/-- A merge adds the contexts of the addition to an exposure. -/
theorem gains_of_merge {old new merged : Option Exposure}
    (h : exposure .override old new = .ok merged) : Gains (· ∈ contextsOf new) old merged := by
  intro context
  rw [exposure_override_iff, Exposure.Overridden] at h
  split at h
  · rename_i hnew
    simp [h, hnew]
  · obtain ⟨e, rfl, hcontexts⟩ := h
    rw [← mem_joinedNames, ← hcontexts]
    rfl

/-! ## Visibility -/

/-- The contexts of an exposure decide where it is visible. -/
theorem isExposedIn_eq (e : Option Exposure) (context : String) :
    isExposedIn e context = if contextsOf e = [] then decide (context = defaultContext)
      else (contextsOf e).any fun named => coversContext named context := by
  rw [isExposedIn]
  by_cases h : contextsOf e = []
  · rw [if_pos h, nonempty?_of_contextsOf h]
  · rw [if_neg h, nonempty?_of_contextsOf_ne h]
    cases e with
    | none => exact absurd rfl h
    | some e => rfl

/-- A member with contexts of its own is visible where one of them covers. -/
theorem isExposedIn_own {own : Option Exposure} (h : contextsOf own ≠ [])
    (parent : Option Exposure) (context : String) :
    isExposedIn (effectiveExposure own parent) context = true ↔
      ∃ named ∈ contextsOf own, coversContext named context = true := by
  have heff : effectiveExposure own parent = own := by
    rw [effectiveExposure, nonempty?_of_contextsOf_ne h]
    cases own with
    | none => exact absurd rfl h
    | some e => rfl
  rw [heff, isExposedIn_eq, if_neg h, List.any_eq_true]

theorem effectiveExposure_of_eq_nil {own : Option Exposure} (h : contextsOf own = [])
    (parent : Option Exposure) : effectiveExposure own parent = Exposure.nonempty? parent := by
  rw [effectiveExposure, nonempty?_of_contextsOf h, Option.none_or]

/-- **What is visible is hidden by its first contexts alone**: by given contexts none of which covers
the place, where it had no contexts of its own. -/
theorem Gains.hidden_iff {given : String → Prop} {old new parent : Option Exposure}
    (h : Gains given old new) {context : String}
    (hvisible : isExposedIn (effectiveExposure old parent) context = true) :
    isExposedIn (effectiveExposure new parent) context = false ↔
      contextsOf old = [] ∧ (∃ named, given named) ∧
        ∀ named, given named → coversContext named context = false := by
  rw [← Bool.not_eq_true]
  by_cases hold : contextsOf old = []
  · have hnew : ∀ named, named ∈ contextsOf new ↔ given named := fun named => by simp [h named, hold]
    by_cases hempty : contextsOf new = []
    · rw [effectiveExposure_of_eq_nil hempty, ← effectiveExposure_of_eq_nil hold]
      have hnone : ¬ ∃ named, given named := by
        rintro ⟨named, hnamed⟩
        simpa [hempty] using (hnew named).2 hnamed
      simp [hvisible, hnone]
    · obtain ⟨named, hnamed⟩ := List.exists_mem_of_ne_nil _ hempty
      have hsome : ∃ named, given named := ⟨named, (hnew named).1 hnamed⟩
      rw [isExposedIn_own hempty]
      simp [hold, hsome, hnew]
  · obtain ⟨named, hnamed, hcovers⟩ := (isExposedIn_own hold parent context).1 hvisible
    have hmem : named ∈ contextsOf new := (h named).2 (Or.inl hnamed)
    have hnew : contextsOf new ≠ [] := List.ne_nil_of_mem hmem
    simp only [hold, false_and, iff_false, not_not]
    exact (isExposedIn_own hnew parent context).2 ⟨named, hmem, hcovers⟩

/-! ## One partial definition -/

namespace Interface

/-- The contexts that a partial definition gives to a member: those of the member there, else those
of the partial definition, else those of the definition that it extends. -/
def givenContexts (base addition : Interface) (member : String) (kind : MemberKind) : List String :=
  contextsOf ((base.exposedFor addition).memberExposure? member kind).join

theorem givenContexts_congr {base base' : Interface} (h : base.exposed = base'.exposed)
    (addition : Interface) (member : String) (kind : MemberKind) :
    base.givenContexts addition member kind = base'.givenContexts addition member kind := by
  rw [givenContexts, givenContexts, exposedFor, exposedFor, h]

variable {base addition merged : Interface}

/-- Partial definitions bring members, not exposures. -/
theorem exposed_foldPartial (h : base.foldPartial addition = .ok merged) :
    merged.exposed = base.exposed := by
  obtain ⟨-, -, -, heq⟩ := mergeMembers_eq_ok_iff.1 (foldPartial_iff_mergeMembers.1 h)
  rw [heq]

theorem gains_foldPartial (h : base.foldPartial addition = .ok merged) {member : String}
    {kind : MemberKind} {own : Option Exposure}
    (hown : base.memberExposure? member kind = some own) :
    ∃ own', merged.memberExposure? member kind = some own' ∧
      Gains (· ∈ base.givenContexts addition member kind) own own' := by
  have hjoin := memberExposure?_mergeMembers (foldPartial_iff_mergeMembers.1 h) member kind
  rw [hown] at hjoin
  cases hnew : (base.exposedFor addition).memberExposure? member kind with
  | none =>
    rw [hnew, Joined.none_right_iff] at hjoin
    refine ⟨own, hjoin, fun context => ?_⟩
    simp [givenContexts, hnew, contextsOf]
  | some new =>
    rw [hnew, Joined.some_some_iff] at hjoin
    obtain ⟨own', hmerged, hexposure⟩ := hjoin
    refine ⟨own', hmerged, ?_⟩
    simpa [givenContexts, hnew] using gains_of_merge hexposure

end Interface

/-! ## Folding -/

section Member

variable (g : Graph) (c : Collection) (i : Interface) (member : String) (kind : MemberKind)

/-- A member of the entry `i` of the graph `g` after some folding: it is still there, with `contexts`
in its exposure, in an entry that is exposed as before. -/
structure Graph.HoldsMember (name : String) (contexts : String → Prop) (state : Folded) : Prop where
  entry : ∃ i' own, c.get? state.graph name = some i' ∧ i'.exposed = i.exposed ∧
    i'.memberExposure? member kind = some own ∧ ∀ context, context ∈ contextsOf own ↔ contexts context
  targets : ∀ targets, state.graph.targetOf? name targets = g.targetOf? name targets

/-- A partial definition is folded into the entry and gives the member a context. -/
def Graph.Gives (name : String) (targets : List Collection) (addition : Interface)
    (context : String) : Prop :=
  addition.name = name ∧ g.targetOf? name targets = some c ∧
    context ∈ i.givenContexts addition member kind

variable {g c i member kind}

/-- Some partial definition of a fragment is folded into the entry and gives the member a context. -/
def Graph.FragmentGives (g : Graph) (c : Collection) (i : Interface) (member : String)
    (kind : MemberKind) (name : String) (f : Fragment) (context : String) : Prop :=
  (∃ a ∈ f.partialInterfaces, g.Gives c i member kind name partialInterfaceTargets a context) ∨
    ∃ a ∈ f.partialMixins, g.Gives c i member kind name partialMixinTargets a context

/-- What is known of the entry: it is exposed as `i`, and its member has `contexts` in its exposure. -/
def Interface.HasContexts (i : Interface) (member : String) (kind : MemberKind)
    (contexts : String → Prop) (i' : Interface) : Prop :=
  i'.exposed = i.exposed ∧ ∃ own, i'.memberExposure? member kind = some own ∧
    ∀ context, context ∈ contextsOf own ↔ contexts context

theorem Graph.holdsMember_iff {name : String} {contexts : String → Prop} {state : Folded} :
    g.HoldsMember c i member kind name contexts state ↔
      g.HoldsEntry c name (i.HasContexts member kind contexts) state := by
  constructor
  · rintro ⟨⟨i', own, hi', hexposed, hown, hcontexts⟩, htargets⟩
    exact ⟨⟨i', hi', hexposed, own, hown, hcontexts⟩, htargets⟩
  · rintro ⟨⟨i', hi', hexposed, own, hown, hcontexts⟩, htargets⟩
    exact ⟨⟨i', own, hi', hexposed, hown, hcontexts⟩, htargets⟩

/-- **A whole fold**: the contexts of a member are its own and those that partial definitions give
it. -/
theorem Graph.HoldsMember.foldPartials {name : String} {contexts : String → Prop}
    {options : Options} {fragments : List Fragment} {state next : Folded}
    (hs : g.HoldsMember c i member kind name contexts state)
    (h : foldPartials options fragments state = .ok next) :
    g.HoldsMember c i member kind name (fun context => contexts context ∨
      ∃ f ∈ fragments, g.FragmentGives c i member kind name f context) next := by
  refine Graph.holdsMember_iff.2 ((Graph.holdsMember_iff.1 hs).foldPartials
    (G := fun a context => context ∈ i.givenContexts a member kind)
    (P := i.HasContexts member kind) ?_ h)
  rintro known base addition merged ⟨hexposed, own, hown, hcontexts⟩ hm
  obtain ⟨own', hown', hgains⟩ := Interface.gains_foldPartial hm hown
  refine ⟨(Interface.exposed_foldPartial hm).trans hexposed, own', hown', fun context => ?_⟩
  rw [hgains context, hcontexts, Interface.givenContexts_congr hexposed]

end Member

/-! ## What folding hides -/

/-- **Folding partial definitions hides a member only by its first contexts.** The member stays, and
where it was visible it is hidden exactly if it had no contexts of its own, it was given some, and
none of those covers the place. -/
theorem foldPartials_hidden_iff {options : Options} {fragments : List Fragment} {state next : Folded}
    (h : foldPartials options fragments state = .ok next) {c : Collection} {name : String}
    {i : Interface} (hi : c.get? state.graph name = some i) {member : String} {kind : MemberKind}
    {own : Option Exposure} (hown : i.memberExposure? member kind = some own) :
    ∃ i' own', c.get? next.graph name = some i' ∧ i'.exposed = i.exposed ∧
      i'.memberExposure? member kind = some own' ∧
      ∀ context, isExposedIn (effectiveExposure own i.exposed) context = true →
        (isExposedIn (effectiveExposure own' i'.exposed) context = false ↔
          contextsOf own = [] ∧
          (∃ named, ∃ f ∈ fragments,
            state.graph.FragmentGives c i member kind name f named) ∧
          ∀ named, (∃ f ∈ fragments, state.graph.FragmentGives c i member kind name f named) →
            coversContext named context = false) := by
  have hstart : state.graph.HoldsMember c i member kind name (· ∈ contextsOf own) state :=
    ⟨⟨i, own, hi, rfl, hown, fun _ => Iff.rfl⟩, fun _ => rfl⟩
  obtain ⟨i', own', hi', hexposed, hown', hcontexts⟩ := (hstart.foldPartials h).entry
  refine ⟨i', own', hi', hexposed, hown', fun context hvisible => ?_⟩
  rw [hexposed]
  exact Gains.hidden_iff hcontexts hvisible

/-- An interface that windows see, with a method that has an exposure of its own or none. -/
def navigator (share : Option Exposure) : Interface where
  name := "Navigator"
  methods := some (.ofList [("share", { name := "share", exposed := share })])
  exposed := some (.ofList ["Window"])

/-- The graph with this interface. -/
def navigatorGraph (share : Option Exposure) : Graph where
  interfaces := some (.ofList [("Navigator", navigator share)])

/-- A fragment that extends the interface for workers and has the method as well. -/
def navigatorFragment : Fragment where
  partialInterfaces := [{
    name := "Navigator"
    methods := some (.ofList [("share", { name := "share" })])
    exposed := some (.ofList ["Worker"]) }]

/-- The fragment takes the method from the windows. -/
theorem navigatorGraph_hides :
    isExposedIn (effectiveExposure none (navigator none).exposed) "Window" = true ∧
      ∃ next i' own', foldPartials {} [navigatorFragment] ⟨navigatorGraph none, {}⟩ = .ok next ∧
        next.graph.interface? "Navigator" = some i' ∧
        i'.memberExposure? "share" .method = some own' ∧
        isExposedIn (effectiveExposure own' i'.exposed) "Window" = false := by
  have hi : (navigatorGraph none).interface? "Navigator" = some (navigator none) := by
    decide +kernel
  have hown : (navigator none).memberExposure? "share" .method = some none := by decide +kernel
  have hvisible : isExposedIn (effectiveExposure none (navigator none).exposed) "Window" = true := by
    decide +kernel
  have hfold : foldPartials {} [navigatorFragment] ⟨navigatorGraph none, {}⟩ =
      .ok ⟨navigatorGraph (some (.ofList ["Worker"])), { partialsFolded := 1 }⟩ := rfl
  obtain ⟨i', own', hi', -, hown', -⟩ := foldPartials_hidden_iff hfold (c := .interfaces) hi hown
  have hafter : (navigatorGraph (some (.ofList ["Worker"]))).interface? "Navigator" =
      some (navigator (some (.ofList ["Worker"]))) := by decide +kernel
  obtain rfl : navigator (some (.ofList ["Worker"])) = i' := Option.some.inj (hafter.symm.trans hi')
  obtain rfl : some (.ofList ["Worker"]) = own' := Option.some.inj hown'
  exact ⟨hvisible, _, _, _, hfold, hi', hown', by decide +kernel⟩

end IdlDecls
