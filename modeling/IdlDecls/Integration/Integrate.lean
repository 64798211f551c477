import IdlDecls.Integration.Fold

/-!
# Integration

`integrate` makes one graph of a baseline, the fragments and the corrections kept by hand, in a fixed
order of phases: deprecated fragments are stamped, their complete definitions merged, partial
definitions and includes statements folded, removed types pruned, added types merged where nothing
exists yet, overriding types and comments merged over everything, and overriding exposures applied.
-/

namespace IdlDecls

/-- Corrections kept by hand (`Templates`). -/
structure Corrections where
  removals : Template := .keepAll
  additions : Graph := ∅
  overrides : Graph := ∅
  comments : Graph := ∅

/-! ## Phases -/

/-- Merges the complete definitions of fragments into a graph: definitions may gain members but not
be redefined (`merge_standard`). -/
def mergeStandard (g : Graph) (fragments : List Fragment) : Except IntegrationError Graph :=
  fragments.foldlM (fun g f => (g.merge .standard f.definitions).toIntegration) g

/-- Prunes a graph (`prune`). The pruned value is read as a graph again, so missing names come back. -/
def Graph.prune (g : Graph) (template : Template) : Except IntegrationError Graph := do
  let kept ← (g.toValue.prune template).mapError .mismatch
  (Graph.ofJson (kept.getD (.obj []))).mapError .unreadable

/-- Merges additions, which may bring new things but touch nothing that exists (`merge_additions`). -/
def Graph.mergeAdditions (g additions : Graph) : Except IntegrationError Graph :=
  (g.merge .additive additions).toIntegration

/-- Merges overriding types (`merge_overrides`). -/
def Graph.mergeOverrides (g overrides : Graph) : Except IntegrationError Graph :=
  (g.merge .override overrides).toIntegration

/-- Merges comments, as overriding types (`merge_comments`). -/
def Graph.mergeComments (g comments : Graph) : Except IntegrationError Graph :=
  (g.merge .override comments).toIntegration

/-- The graph that the corrections make of the folded one, and the number of overriding exposures
(the second half of `integrate`). -/
def Graph.correct (g : Graph) (corrections : Corrections) :
    Except IntegrationError (Graph × Nat) := do
  let g ← g.prune corrections.removals
  let g ← g.mergeAdditions corrections.additions
  let g ← g.mergeOverrides corrections.overrides
  let g ← g.mergeComments corrections.comments
  g.applyExposureOverrides

/-! ## All phases -/

/-- The counts before the first phase. -/
def Report.start (fragments : List Fragment) : Report :=
  { fragments := fragments.length
    deprecatedFragments := fragments.countP (·.deprecated) }

/-- Integrates fragments and corrections into a baseline (`integrate`). -/
def integrate (options : Options) (baseline : Graph) (fragments : List Fragment)
    (corrections : Corrections) : Except IntegrationError (Graph × Report) := do
  let stamped := fragments.map Fragment.stampDeprecated
  let g ← mergeStandard baseline stamped
  let folded ← (foldPartials options stamped ⟨g, Report.start fragments⟩).mapError (·.error)
  let folded ← (foldIncludes options stamped folded).mapError (·.error)
  let (g, overridden) ← folded.graph.correct corrections
  pure (g, { folded.report with exposureOverrides := overridden })

end IdlDecls
