import IdlDecls.Integration.Integrate
import IdlDecls.Proofs.Runs

/-!
# The phases of an integration

An integration that ends well has ended every phase well. `Phases` holds the graph after each of
them with the proof that the phase made it of the one before, and `integrate_phases` finds them in
a run; what a phase keeps is then said of that phase alone.
-/

namespace IdlDecls

/-- The graphs between the phases of an integration that ends well. -/
structure Phases (options : Options) (baseline : Graph) (fragments : List Fragment)
    (corrections : Corrections) where
  merged : Graph
  folded : Folded
  included : Folded
  pruned : Graph
  added : Graph
  overridden : Graph
  commented : Graph
  result : Graph
  /-- The number of overriding exposures. -/
  count : Nat
  merging : mergeStandard baseline (fragments.map Fragment.stampDeprecated) = .ok merged
  folding : foldPartials options (fragments.map Fragment.stampDeprecated)
    ⟨merged, Report.start fragments⟩ = .ok folded
  including : foldIncludes options (fragments.map Fragment.stampDeprecated) folded = .ok included
  pruning : included.graph.prune corrections.removals = .ok pruned
  adding : pruned.mergeAdditions corrections.additions = .ok added
  overriding : added.mergeOverrides corrections.overrides = .ok overridden
  commenting : overridden.mergeComments corrections.comments = .ok commented
  exposing : commented.applyExposureOverrides = .ok (result, count)

/-- **A run is its phases.** -/
theorem integrate_phases {options : Options} {baseline : Graph} {fragments : List Fragment}
    {corrections : Corrections} {g : Graph} {report : Report}
    (h : integrate options baseline fragments corrections = .ok (g, report)) :
    ∃ p : Phases options baseline fragments corrections,
      p.result = g ∧ report = { p.included.report with exposureOverrides := p.count } := by
  simp only [integrate, Graph.correct, bind_eq_ok_iff, mapError_eq_ok_iff, pure_eq_ok_iff,
    Prod.mk.injEq, Prod.exists] at h
  obtain ⟨merged, hmerge, folded, hfold, included, hinclude, result, count, ⟨pruned, hprune, added,
    hadd, overridden, hoverride, commented, hcomment, hexpose⟩, rfl, rfl⟩ := h
  exact ⟨⟨merged, folded, included, pruned, added, overridden, commented, result, count, hmerge,
    hfold, hinclude, hprune, hadd, hoverride, hcomment, hexpose⟩, rfl, rfl⟩

end IdlDecls
