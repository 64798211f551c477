import IdlDecls.Integration.Exposing
import IdlDecls.Integration.Fragment
import IdlDecls.Integration.Options
import IdlDecls.Merge.Graph

/-!
# Folding partial definitions and includes

The partial definitions of all fragments are folded into their targets one after the other, then the
includes statements. A partial interface looks for an interface first and for a mixin second. A
missing target is skipped or ends the fold, as the options say. Every step is counted in a report; a
fold that fails hands over the report of the steps before.
-/

namespace IdlDecls

/-! ## Counts -/

/-- What an integration counts (`IntegrationReport`). The counters there are machine words (`usize`);
here they are natural numbers, which never overflow. A run raises a counter at most once for an item
of a list that it holds, so in memory no word overflows either. -/
structure Report where
  fragments : Nat := 0
  deprecatedFragments : Nat := 0
  partialsFolded : Nat := 0
  partialsSkipped : Nat := 0
  includesFolded : Nat := 0
  includesSkipped : Nat := 0
  exposureOverrides : Nat := 0
deriving DecidableEq, Repr, Inhabited

/-- One paragraph about an integration (`render_summary`). -/
def Report.summary (r : Report) : String :=
  "Integrated " ++ toString r.fragments ++ " fragments (" ++ toString r.deprecatedFragments ++
    " deprecated); partials: " ++ toString r.partialsFolded ++ " folded, " ++
    toString r.partialsSkipped ++ " skipped; includes: " ++ toString r.includesFolded ++
    " folded, " ++ toString r.includesSkipped ++ " skipped" ++
    (if r.exposureOverrides = 0 then ""
      else "; " ++ toString r.exposureOverrides ++ " exposure overrides")

/-- A graph under work and the counts so far. -/
structure Folded where
  graph : Graph
  report : Report

/-- Why a fold failed, and the counts of the steps before. -/
structure Stopped where
  error : IntegrationError
  report : Report

/-- The result of a fold. -/
abbrev Folding := Except Stopped Folded

/-- Leaves out a reference to a missing definition, or fails; `skipped` is the report in which it is
counted (`check`). -/
def Folded.missing (options : Options) (kind : Reference) (name : String) (state : Folded)
    (skipped : Report) : Folding :=
  match options.unresolved with
  | .skip => .ok ⟨state.graph, skipped⟩
  | .fail => .error ⟨.unresolved kind name, state.report⟩

/-! ## Targets -/

/-- A collection that the target of a partial interface can be in. -/
inductive Collection where
  | interfaces
  | mixins
deriving DecidableEq, Repr

namespace Collection

/-- The entry of a collection with a name (`get`). -/
def get? : Collection → Graph → String → Option Interface
  | .interfaces, g, name => g.interface? name
  | .mixins, g, name => g.mixin? name

/-- The graph with an entry of a collection replaced, if it has the entry (by `get_mut`). -/
def replace : Collection → Graph → String → Interface → Graph
  | .interfaces, g, name, i =>
    { g with interfaces := g.interfaces.map (·.modify name fun _ => i) }
  | .mixins, g, name, i => { g with mixins := g.mixins.map (·.modify name fun _ => i) }

end Collection

/-- Where a partial interface looks for its target (`PARTIAL_INTERFACE_TARGETS`). -/
def partialInterfaceTargets : List Collection := [.interfaces, .mixins]

/-- Where a partial mixin looks for its target (`PARTIAL_MIXIN_TARGETS`). -/
def partialMixinTargets : List Collection := [.mixins]

/-- The first of some collections with an entry of a name, and the entry (`locate`). -/
def Graph.locate? (g : Graph) (name : String) : List Collection → Option (Collection × Interface)
  | [] => none
  | c :: rest =>
    match c.get? g name with
    | some i => some (c, i)
    | none => g.locate? name rest

/-! ## Partial definitions -/

/-- Gives a partial interface exposures for the members that have none, before `fold_partial` merges
it: its own exposure, else that of the definition that it extends. -/
def Interface.exposeFor (base addition : Interface) : Except IntegrationError Interface :=
  match effectiveExposure addition.exposed base.exposed with
  | some exposure => addition.resolveExposure .inherit exposure
  | none => .ok addition

/-- A definition with the members of a partial one merged into its own (`fold_partial`, once the
target is found). -/
def Interface.foldPartial (base addition : Interface) : Except IntegrationError Interface := do
  let addition ← base.exposeFor addition
  (base.mergeMembers .override addition).toIntegration

/-- Folds a partial interface or mixin (`fold_partial`). -/
def foldPartialInterface (options : Options) (targets : List Collection) (state : Folded)
    (addition : Interface) : Folding :=
  match state.graph.locate? addition.name targets with
  | none =>
    state.missing options .partialInterface addition.name
      { state.report with partialsSkipped := state.report.partialsSkipped + 1 }
  | some (c, base) =>
    match base.foldPartial addition with
    | .error e => .error ⟨e, state.report⟩
    | .ok merged =>
      .ok ⟨c.replace state.graph addition.name merged,
        { state.report with partialsFolded := state.report.partialsFolded + 1 }⟩

/-- Folds a partial dictionary (in `fold_partials`). -/
def foldPartialDictionary (options : Options) (state : Folded) (addition : Dictionary) : Folding :=
  match state.graph.dictionary? addition.name with
  | none =>
    state.missing options .partialDictionary addition.name
      { state.report with partialsSkipped := state.report.partialsSkipped + 1 }
  | some base =>
    match base.mergeMembers .override addition with
    | .error e => .error ⟨.conflict e, state.report⟩
    | .ok merged =>
      .ok ⟨{ state.graph with
          dictionaries := state.graph.dictionaries.map
            (·.modify addition.name fun _ => merged) },
        { state.report with partialsFolded := state.report.partialsFolded + 1 }⟩

/-- Folds the partial definitions of one fragment: interfaces, mixins, dictionaries (in
`fold_partials`). -/
def foldFragment (options : Options) (state : Folded) (f : Fragment) : Folding := do
  let state ← f.partialInterfaces.foldlM (foldPartialInterface options partialInterfaceTargets) state
  let state ← f.partialMixins.foldlM (foldPartialInterface options partialMixinTargets) state
  f.partialDictionaries.foldlM (foldPartialDictionary options) state

/-- Folds the partial definitions of all fragments (`fold_partials`). -/
def foldPartials (options : Options) (fragments : List Fragment) (state : Folded) : Folding :=
  fragments.foldlM (foldFragment options) state

/-! ## Includes -/

/-- An interface that includes one more mixin. -/
def Interface.including (mixin : String) (i : Interface) : Interface :=
  { i with implements := some (i.implements.getD [] ++ [mixin]) }

/-- Folds an includes statement (in `fold_includes`). -/
def foldInclude (options : Options) (state : Folded) (statement : Include) : Folding :=
  match state.graph.interface? statement.target with
  | none =>
    state.missing options .includes statement.target
      { state.report with includesSkipped := state.report.includesSkipped + 1 }
  | some i =>
    .ok ⟨Collection.interfaces.replace state.graph statement.target (i.including statement.includes),
      { state.report with includesFolded := state.report.includesFolded + 1 }⟩

/-- Folds the includes statements of all fragments (`fold_includes`). -/
def foldIncludes (options : Options) (fragments : List Fragment) (state : Folded) : Folding :=
  (fragments.flatMap (·.includes)).foldlM (foldInclude options) state

end IdlDecls
