import IdlDecls.Proofs.Integration.Conventions
import IdlDecls.Proofs.Integration.Targets
import IdlDecls.Proofs.Removal.Marks

/-!
# Deprecation is never lost

A mark of deprecation that is set once in the course of an integration is set in its result, unless the
removal template says something of its place. The definitions of a deprecated fragment are stamped
before they are merged, its partial definitions before they are folded; no merge and no fold clears a
mark, and what a template does not touch is read back with its marks. So nothing that a later fragment,
an addition, an override or a comment says can take a mark away (`integrate_keeps_deprecation`).
-/

namespace IdlDecls

open Merge Merging

/-! ## Stamping and merging -/

/-- A deprecated fragment marks its interfaces throughout. -/
theorem Fragment.marked_stampDeprecated {f : Fragment} (hf : f.deprecated = true) (name : String)
    (mark : Mark) : f.stampDeprecated.definitions.marked (.of .interfaces) name mark =
      (f.definitions.interface? name).any (·.lists mark) := by
  rw [stampDeprecated, if_pos hf]
  simp only [Graph.marked, Family.get?, Collection.get?, Graph.interface?, lookup?_map_values,
    Option.any_map, Interface.marked_markDeprecated]

theorem Fragment.partialInterfaces_stampDeprecated {f : Fragment} (hf : f.deprecated = true) :
    f.stampDeprecated.partialInterfaces = f.partialInterfaces.map Interface.markDeprecated := by
  rw [stampDeprecated, if_pos hf]

theorem Fragment.partialMixins_stampDeprecated {f : Fragment} (hf : f.deprecated = true) :
    f.stampDeprecated.partialMixins = f.partialMixins.map Interface.markDeprecated := by
  rw [stampDeprecated, if_pos hf]

/-- Merging complete definitions brings the marks of the baseline and of all fragments. -/
theorem Graph.marked_mergeStandard {base merged : Graph} {fragments : List Fragment}
    (h : mergeStandard base fragments = .ok merged) (family : Family) (name : String) (mark : Mark) :
    merged.marked family name mark = true ↔ base.marked family name mark = true ∨
      ∃ f ∈ fragments, f.definitions.marked family name mark = true :=
  mergeStandard_gathers (P := fun g => g.marked family name mark = true)
    (fun _ _ _ hm => by rw [Graph.marked_merge hm, Bool.or_eq_true]) h

/-! ## Folding -/

/-- The known marks are set. -/
def Interface.HasMarks (known : Mark → Prop) (i : Interface) : Prop :=
  ∀ mark, known mark → i.marked mark = true

/-- A partial definition brings the mark of a member. -/
def Interface.Brings (addition : Interface) (mark : Mark) : Prop :=
  mark ≠ .whole ∧ addition.marked mark = true

/-- A partial definition that is marked throughout brings the marks of all its members. -/
theorem Interface.brings_markDeprecated (i : Interface) {mark : Mark} (hmember : mark ≠ .whole)
    (hlists : i.lists mark = true) : i.markDeprecated.Brings mark :=
  ⟨hmember, (i.marked_markDeprecated mark).trans hlists⟩

theorem Interface.HasMarks.foldPartial (known : Mark → Prop) (base addition merged : Interface)
    (hb : base.HasMarks known) (h : base.foldPartial addition = .ok merged) :
    merged.HasMarks fun mark => known mark ∨ addition.Brings mark := by
  intro mark hmark
  rw [marked_foldPartial h]
  rcases hmark with hknown | ⟨hmember, hset⟩
  · rw [hb mark hknown, Bool.true_or]
  · simp [hmember, hset]

section Fold

variable {options : Options} {fragments : List Fragment} {state next : Folded} {c : Collection}
  {name : String} {mark : Mark}

/-- An entry has its marks after a fold, and those that partial definitions bring. -/
theorem Graph.holdsMarks_foldPartials (h : foldPartials options fragments state = .ok next)
    {i : Interface} (hi : c.get? state.graph name = some i) :
    state.graph.HoldsEntry c name (Interface.HasMarks fun mark => i.marked mark = true ∨
      ∃ f ∈ fragments, state.graph.FragmentGivesEntry c name Interface.Brings f mark) next := by
  have hstart : state.graph.HoldsEntry c name (Interface.HasMarks fun mark => i.marked mark = true)
      state := ⟨⟨i, hi, fun _ hmark => hmark⟩, fun _ => rfl⟩
  exact hstart.foldPartials Interface.HasMarks.foldPartial h

theorem Graph.marked_of_holdsMarks {g : Graph} {known : Mark → Prop}
    (h : g.HoldsEntry c name (Interface.HasMarks known) state) (hmark : known mark) :
    state.graph.marked (.of c) name mark = true := by
  obtain ⟨i, hi, hmarks⟩ := h.entry
  rw [Graph.marked, Family.get?, hi, Option.any_some]
  exact hmarks mark hmark

/-- **Folding clears no mark.** -/
theorem Graph.marked_foldPartials (h : foldPartials options fragments state = .ok next)
    {family : Family} (hset : state.graph.marked family name mark = true) :
    next.graph.marked family name mark = true := by
  cases family with
  | callbackInterfaces =>
    have hsame : next.graph.callbackInterfaces = state.graph.callbackInterfaces :=
      frame_foldPartials Graph.callbackInterfaces (fun c _ _ _ => by cases c <;> rfl)
        (fun _ _ => rfl) h
    rwa [Graph.marked, Family.get?, hsame]
  | of c =>
    obtain ⟨i, hi, hmark⟩ := (Option.any_eq_true _ _).1 hset
    exact marked_of_holdsMarks (holdsMarks_foldPartials h hi) (Or.inl hmark)

/-- **Folding sets the marks of the members** that a fragment brings to a target. -/
theorem Graph.marked_of_brought (h : foldPartials options fragments state = .ok next)
    {f : Fragment} (hf : f ∈ fragments)
    (hbrings : state.graph.FragmentGivesEntry c name Interface.Brings f mark) :
    next.graph.marked (.of c) name mark = true := by
  have htarget : ∃ targets, state.graph.targetOf? name targets = some c := by
    rcases hbrings with ⟨_, -, -, htarget, -⟩ | ⟨_, -, -, htarget, -⟩ <;> exact ⟨_, htarget⟩
  obtain ⟨targets, htarget⟩ := htarget
  obtain ⟨⟨_, i⟩, hl, rfl⟩ := Option.map_eq_some_iff.1 htarget
  exact marked_of_holdsMarks (holdsMarks_foldPartials h (get?_of_locate? hl))
    (Or.inr ⟨f, hf, hbrings⟩)

theorem Graph.marked_foldIncludes (h : foldIncludes options fragments state = .ok next)
    {family : Family} (hset : state.graph.marked family name mark = true) :
    next.graph.marked family name mark = true := by
  refine foldlM_keeps (P := fun s => s.graph.marked family name mark = true) ?_ hset h
  intro statement _ s t hs ht
  rcases foldInclude_cases ht with ⟨-, hg⟩ | ⟨i, hi, hg⟩
  · rwa [hg]
  · rw [hg]
    cases family with
    | callbackInterfaces => exact hs
    | of d =>
      rw [Graph.marked, Family.get?, Collection.get?_replace]
      split
      · rename_i hsame
        obtain ⟨rfl, rfl⟩ := hsame
        rw [Graph.marked, Family.get?, Collection.get?, hi] at hs
        rw [Collection.get?, hi, Option.map_some, Option.any_some, Interface.marked_including]
        exact hs
      · exact hs

end Fold

/-! ## Runs -/

/-- What is tidy follows the convention that asks for nothing. -/
theorem Graph.Tidy.follows {g : Graph} (h : g.Tidy) : g.Follows .free :=
  Graph.follows_iff.2 ⟨h, fun _ _ => trivial, fun _ _ => trivial, g.named_of_forall fun _ _ => trivial⟩

theorem Fragment.Tidy.follows {f : Fragment} (h : f.Tidy) : f.Follows .free :=
  Fragment.follows_iff.2 ⟨h, fun _ _ => trivial, fun _ _ => trivial,
    { definitions := f.definitions.named_of_forall fun _ _ => trivial
      partialInterfaces := fun i _ => i.membersNamed_of_forall fun _ _ => trivial
      partialMixins := fun i _ => i.membersNamed_of_forall fun _ _ => trivial
      partialDictionaries := fun _ _ _ _ _ => trivial }⟩

section Phases

variable {options : Options} {baseline : Graph} {fragments : List Fragment}
  {corrections : Corrections} {p : Phases options baseline fragments corrections}

theorem Phases.tidy_included (p : Phases options baseline fragments corrections) (hb : baseline.Tidy)
    (hf : ∀ f ∈ fragments, f.Tidy) : p.included.graph.Tidy :=
  (Graph.follows_iff.1 (p.follows_included hb.follows fun f hmem => (hf f hmem).follows)).1

/-- Merging corrections clears no mark. -/
theorem Phases.marked_of_pruned {family : Family} {name : String} {mark : Mark}
    (hset : p.pruned.marked family name mark = true) :
    p.result.marked family name mark = true := by
  rw [Graph.marked_applyExposureOverrides p.exposing,
    Graph.marked_merge (mapError_eq_ok_iff.1 p.commenting),
    Graph.marked_merge (mapError_eq_ok_iff.1 p.overriding),
    Graph.marked_merge (mapError_eq_ok_iff.1 p.adding), hset]
  rfl

/-- **From the fold on**, a mark is kept if the removal template says nothing of it. -/
theorem Phases.marked_of_folded (hb : baseline.Tidy) (hf : ∀ f ∈ fragments, f.Tidy)
    {family : Family} {name : String} {mark : Mark}
    (hsaid : mark.said (family.said corrections.removals name) = none)
    (hset : p.folded.graph.marked family name mark = true) :
    p.result.marked family name mark = true :=
  p.marked_of_pruned (Graph.marked_prune (p.tidy_included hb hf) p.pruning hsaid
    (Graph.marked_foldIncludes p.including hset))

/-- **From the first merges on**, a mark is kept if the removal template says nothing of it. -/
theorem Phases.marked_of_merged (hb : baseline.Tidy) (hf : ∀ f ∈ fragments, f.Tidy)
    {family : Family} {name : String} {mark : Mark}
    (hsaid : mark.said (family.said corrections.removals name) = none)
    (hset : p.merged.marked family name mark = true) :
    p.result.marked family name mark = true :=
  p.marked_of_folded hb hf hsaid (Graph.marked_foldPartials p.folding hset)

/-- **From the fold itself**, the mark of a member that a stamped fragment brings to its target. -/
theorem Phases.marked_of_brought (hb : baseline.Tidy) (hf : ∀ f ∈ fragments, f.Tidy)
    {c : Collection} {name : String} {mark : Mark}
    (hsaid : mark.said ((Family.of c).said corrections.removals name) = none) {f : Fragment}
    (hmem : f ∈ fragments)
    (hbrings : p.merged.FragmentGivesEntry c name Interface.Brings f.stampDeprecated mark) :
    p.result.marked (.of c) name mark = true :=
  p.marked_of_folded hb hf hsaid
    (Graph.marked_of_brought p.folding (List.mem_map_of_mem hmem) hbrings)

/-! ## Namespaces in a run -/

theorem KeptInPlace.exists_of_mem {α : Type} {R : α → α → Prop} {base result : List α}
    (h : KeptInPlace R base result) {old : α} (hold : old ∈ base) : ∃ new ∈ result, R old new := by
  obtain ⟨i, hi⟩ := List.mem_iff_getElem?.1 hold
  obtain ⟨new, hnew, hkept⟩ := h i old hi
  exact ⟨new, List.mem_of_getElem? hnew, hkept⟩

theorem Graph.Tidy.of_mem_namespaces {g : Graph} (hg : g.Tidy) {n : Interface}
    (hn : n ∈ g.namespaces.getD []) : n.Tidy := by
  cases hnamespaces : g.namespaces with
  | none => simp [hnamespaces] at hn
  | some items => exact hg.namespaces items hnamespaces n (by simpa [hnamespaces] using hn)

/-- Up to the removal of types, namespaces keep their places. -/
theorem Phases.namespaces_included (p : Phases options baseline fragments corrections) :
    KeptInPlace Interface.MarksKept (baseline.namespaces.getD [])
      (p.included.graph.namespaces.getD []) := by
  have hmerged : KeptInPlace Interface.MarksKept (baseline.namespaces.getD [])
      (p.merged.namespaces.getD []) := by
    refine foldlM_keeps (P := fun g => KeptInPlace Interface.MarksKept (baseline.namespaces.getD [])
      (g.namespaces.getD [])) ?_ (fun _ => Kept.refl Interface.MarksKept.refl _) p.merging
    intro f _ g next hg hnext
    exact hg.trans (Graph.namespaces_merge (mergeStandard_step hnext))
      fun _ _ _ => Interface.MarksKept.trans
  have hfolded : p.folded.graph.namespaces = p.merged.namespaces :=
    frame_foldPartials Graph.namespaces (fun c _ _ _ => by cases c <;> rfl) (fun _ _ => rfl) p.folding
  have hincluded : p.included.graph.namespaces = p.folded.graph.namespaces :=
    frame_foldIncludes Graph.namespaces (fun c _ _ _ => by cases c <;> rfl) p.including
  rwa [hincluded, hfolded]

/-- Behind the removal of types as well. -/
theorem Phases.namespaces_result (p : Phases options baseline fragments corrections) :
    KeptInPlace Interface.MarksKept (p.pruned.namespaces.getD []) (p.result.namespaces.getD []) := by
  have hadded := Graph.namespaces_merge (mapError_eq_ok_iff.1 p.adding)
  have hoverridden := Graph.namespaces_merge (mapError_eq_ok_iff.1 p.overriding)
  have hcommented := Graph.namespaces_merge (mapError_eq_ok_iff.1 p.commenting)
  obtain ⟨-, hresult, -⟩ := Graph.applyExposureOverrides_eq_ok_iff.1 p.exposing
  rw [hresult]
  exact (hadded.trans hoverridden fun _ _ _ => Interface.MarksKept.trans).trans hcommented
    fun _ _ _ => Interface.MarksKept.trans

/-- **A namespace that is spared** is there under its name, with its marks. -/
theorem Phases.namespace_kept (p : Phases options baseline fragments corrections) (hb : baseline.Tidy)
    (hf : ∀ f ∈ fragments, f.Tidy) {n : Interface} (hn : n ∈ baseline.namespaces.getD [])
    (hspared : corrections.removals.SparesNamespace n) :
    ∃ r ∈ p.result.namespaces.getD [], r.name = n.name ∧
      ∀ mark, n.marked mark = true → r.marked mark = true := by
  have htidy := p.tidy_included hb hf
  obtain ⟨old, hold, hkept⟩ := p.namespaces_included.exists_of_mem hn
  have hspared := hspared.kept (hb.of_mem_namespaces hn) (htidy.of_mem_namespaces hold) hkept
  obtain ⟨m, hm, hname, hmarks⟩ := Graph.namespaces_prune htidy p.pruning hold hspared
  obtain ⟨r, hr, hresult⟩ := p.namespaces_result.exists_of_mem hm
  exact ⟨r, hr, hresult.name.trans (hname.trans hkept.name),
    fun mark hmark => hresult.marks mark (hmarks mark (hkept.marks mark hmark))⟩

end Phases

/-! ## Deprecation is kept -/

/-- What the result `g` of a run has of the marks that its baseline has and its deprecated fragments
set, where the removal template says nothing of their places: the interfaces that a deprecated fragment
defines are marked throughout, and so are the members of its partial definitions in the entries that
they are folded into, which are found in the graph after the complete definitions are merged; and what
is marked in the baseline stays so. -/
structure DeprecationKept (baseline : Graph) (fragments : List Fragment) (corrections : Corrections)
    (g : Graph) : Prop where
  defined : ∀ f ∈ fragments, f.deprecated = true → ∀ name i mark,
    f.definitions.interface? name = some i → i.lists mark = true →
    mark.said ((Family.of .interfaces).said corrections.removals name) = none →
    g.marked (.of .interfaces) name mark = true
  partialInterfaces : ∀ f ∈ fragments, f.deprecated = true → ∀ a ∈ f.partialInterfaces,
    ∀ merged c mark, mergeStandard baseline (fragments.map Fragment.stampDeprecated) = .ok merged →
    merged.targetOf? a.name partialInterfaceTargets = some c → mark ≠ .whole → a.lists mark = true →
    mark.said ((Family.of c).said corrections.removals a.name) = none →
    g.marked (.of c) a.name mark = true
  partialMixins : ∀ f ∈ fragments, f.deprecated = true → ∀ a ∈ f.partialMixins,
    ∀ merged c mark, mergeStandard baseline (fragments.map Fragment.stampDeprecated) = .ok merged →
    merged.targetOf? a.name partialMixinTargets = some c → mark ≠ .whole → a.lists mark = true →
    mark.said ((Family.of c).said corrections.removals a.name) = none →
    g.marked (.of c) a.name mark = true
  kept : ∀ (family : Family) name mark, baseline.marked family name mark = true →
    mark.said (family.said corrections.removals name) = none → g.marked family name mark = true
  namespaces : ∀ n ∈ baseline.namespaces.getD [], corrections.removals.SparesNamespace n →
    ∃ r ∈ g.namespaces.getD [], r.name = n.name ∧
      ∀ mark, n.marked mark = true → r.marked mark = true

/-- **Deprecation is never lost** in a run that ends well on tidy inputs, which all that are read are
(`Graph.tidy_of_ofJson`, `Fragment.tidy_of_ofJson`). -/
theorem integrate_keeps_deprecation {options : Options} {baseline : Graph} {fragments : List Fragment}
    {corrections : Corrections} {g : Graph} {report : Report} (hb : baseline.Tidy)
    (hf : ∀ f ∈ fragments, f.Tidy)
    (h : integrate options baseline fragments corrections = .ok (g, report)) :
    DeprecationKept baseline fragments corrections g := by
  obtain ⟨p, rfl, -⟩ := integrate_phases h
  refine ⟨?_, ?_, ?_, ?_, fun n hn hspared => p.namespace_kept hb hf hn hspared⟩
  · intro f hmem hdeprecated name i mark hi hlists hsaid
    refine p.marked_of_merged hb hf hsaid ?_
    have hstamped : f.stampDeprecated.definitions.marked (.of .interfaces) name mark = true := by
      rw [Fragment.marked_stampDeprecated hdeprecated, hi, Option.any_some, hlists]
    rw [Graph.marked_mergeStandard p.merging]
    exact Or.inr ⟨_, List.mem_map_of_mem hmem, hstamped⟩
  · intro f hmem hdeprecated a ha merged c mark hmerged htarget hmember hlists hsaid
    cases Except.ok.inj (hmerged.symm.trans p.merging)
    refine p.marked_of_brought hb hf hsaid hmem (Or.inl ?_)
    rw [Fragment.partialInterfaces_stampDeprecated hdeprecated]
    exact ⟨_, List.mem_map_of_mem ha, rfl, htarget, a.brings_markDeprecated hmember hlists⟩
  · intro f hmem hdeprecated a ha merged c mark hmerged htarget hmember hlists hsaid
    cases Except.ok.inj (hmerged.symm.trans p.merging)
    refine p.marked_of_brought hb hf hsaid hmem (Or.inr ?_)
    rw [Fragment.partialMixins_stampDeprecated hdeprecated]
    exact ⟨_, List.mem_map_of_mem ha, rfl, htarget, a.brings_markDeprecated hmember hlists⟩
  · intro family name mark hset hsaid
    refine p.marked_of_merged hb hf hsaid ?_
    rw [Graph.marked_mergeStandard p.merging]
    exact Or.inl hset

/-- A data file with a deprecated interface. -/
def ferryJson : Json :=
  .obj [("interfaces", .obj [("interface", .obj [("Ferry", .obj [
    ("deprecated", .bool true), ("comment", .str "Crosses the river.")])])])]

/-- The graph of this data file. -/
def ferryGraph : Graph where
  interfaces := some (.ofList [("Ferry", {
    name := "Ferry", comment := some "Crosses the river.", deprecated := some true })])

/-- A data file of a deprecated fragment with a definition and a partial definition. -/
def ferryFragmentJson : Json :=
  .obj [("deprecated", .bool true),
    ("browser", .obj [("interfaces", .obj [("interface", .obj [("Raft", .obj [
      ("methods", .obj [("method", .obj [("drift", .obj [])])])])])])]),
    ("partialInterfaces", .arr [.obj [("name", .str "Ferry"),
      ("properties", .obj [("property", .obj [("deck", .obj [])])])]])]

/-- The fragment of this data file. -/
def ferryFragment : Fragment where
  deprecated := true
  definitions := {
    interfaces := some (.ofList [("Raft", {
      name := "Raft", methods := some (.ofList [("drift", { name := "drift" })]) })]) }
  partialInterfaces := [{
    name := "Ferry", properties := some (.ofList [("deck", { name := "deck" })]) }]

/-- The removal of a comment, and the statement that neither interface is deprecated. -/
def ferryCorrections : Corrections where
  removals := .nested [("interfaces", .nested [("interface", .nested [
    ("Ferry", .names ["comment"])])])]
  overrides := {
    interfaces := some (.ofList [
      ("Ferry", { name := "Ferry", deprecated := some false }),
      ("Raft", { name := "Raft", deprecated := some false })]) }

/-- Both interfaces stay deprecated, and so do the new members. -/
theorem ferryGraph_keeps_deprecation :
    ferryGraph.Tidy ∧ ferryFragment.Tidy ∧
      ∃ g report, integrate {} ferryGraph [ferryFragment] ferryCorrections = .ok (g, report) ∧
        DeprecationKept ferryGraph [ferryFragment] ferryCorrections g ∧
        g.marked (.of .interfaces) "Ferry" .whole = true ∧
        g.marked (.of .interfaces) "Raft" (.method "drift") = true ∧
        g.marked (.of .interfaces) "Ferry" (.property "deck") = true := by
  have hread : Graph.ofJson ferryJson = .ok ferryGraph := by decide +kernel
  have hfragment : Fragment.ofJson ferryFragmentJson = .ok ferryFragment := by decide +kernel
  have hb := Graph.tidy_of_ofJson hread
  have hf := Fragment.tidy_of_ofJson hfragment
  obtain ⟨g, report, hrun⟩ : ∃ g report,
      integrate {} ferryGraph [ferryFragment] ferryCorrections = .ok (g, report) := ⟨_, _, rfl⟩
  have hkept := integrate_keeps_deprecation hb (by simpa using hf) hrun
  refine ⟨hb, hf, g, report, hrun, hkept, ?_, ?_, ?_⟩
  · exact hkept.kept _ _ _ (by decide +kernel) rfl
  · exact hkept.defined ferryFragment (by simp) rfl "Raft" _ (.method "drift") rfl (by decide +kernel) rfl
  · exact hkept.partialInterfaces ferryFragment (by simp) rfl _ (List.mem_singleton.2 rfl) _
      .interfaces (.property "deck") rfl (by decide +kernel) (by decide) (by decide +kernel) rfl

/-- The interface of `ferryGraph` with an extra field under the key of its mark. -/
def wreckGraph : Graph where
  interfaces := some (.ofList [("Ferry", {
    name := "Ferry", deprecated := some true, extra := .ofList [("deprecated", .bool false)] })])

/-- The removal of the new interface, which its collection lists by its key. -/
def raftRemoval : Corrections where
  removals := .nested [("interfaces", .nested [("interface", .names ["Raft"])])]

/-- A mark is lost where an extra field stands under its key: written out, the field takes the place of
the mark. And an interface is lost with its marks where the node of its collection lists it, though the
template has no node at the interface or inside of it. -/
theorem misplaced_extra_not_keeps_deprecation :
    (wreckGraph.marked (.of .interfaces) "Ferry" .whole = true ∧
      ∃ g report, integrate {} wreckGraph [] {} = .ok (g, report) ∧
        g.marked (.of .interfaces) "Ferry" .whole = false) ∧
    (ferryFragment.deprecated = true ∧ (ferryFragment.definitions.interface? "Raft").isSome ∧
      ∃ g report, integrate {} ferryGraph [ferryFragment] raftRemoval = .ok (g, report) ∧
        g.interface? "Raft" = none) := by
  obtain ⟨wreck, report, hwreck, hlost⟩ : ∃ g report,
      integrate {} wreckGraph [] {} = .ok (g, report) ∧
        g.marked (.of .interfaces) "Ferry" .whole = false := ⟨_, _, rfl, by decide +kernel⟩
  obtain ⟨left, report', hleft, hremoved⟩ : ∃ g report,
      integrate {} ferryGraph [ferryFragment] raftRemoval = .ok (g, report) ∧
        g.interface? "Raft" = none := ⟨_, _, rfl, by decide +kernel⟩
  exact ⟨⟨by decide +kernel, wreck, report, hwreck, hlost⟩, rfl, by decide +kernel, left, report',
    hleft, hremoved⟩

end IdlDecls
