import IdlDecls.Proofs.Integration.Folding
import IdlDecls.Proofs.Integration.Phases
import IdlDecls.Proofs.Merge.Overridden

/-!
# Strict integrations

An integration that fails on missing targets ends well exactly if one that leaves them out does and
had none to leave out, and both end the same; otherwise it fails at the first missing target
(`integrate_strict`). What carries this is that folding never adds or removes a definition, so that
whether a target is missing is settled before the first step (`Seeks`).
-/

namespace IdlDecls

/-! ## Targets -/

/-- A definition that a fragment refers to. -/
inductive Target where
  /-- That of a partial interface or mixin, in one of the collections where it is looked for. -/
  | partialInterface (places : List Collection) (name : String)
  | partialDictionary (name : String)
  | includes (name : String)
deriving DecidableEq, Repr

namespace Target

/-- Whether a graph has the definition. -/
def isIn (g : Graph) : Target → Bool
  | partialInterface places name => places.any fun c => (c.get? g name).isSome
  | partialDictionary name => (g.dictionary? name).isSome
  | includes name => (g.interface? name).isSome

/-- What a strict integration fails with where the definition is missing. -/
def missing : Target → IntegrationError
  | partialInterface _ name => .unresolved .partialInterface name
  | partialDictionary name => .unresolved .partialDictionary name
  | includes name => .unresolved .includes name

end Target

/-- The targets of the partial definitions of a fragment. -/
def Fragment.partialTargets (f : Fragment) : List Target :=
  f.partialInterfaces.map (fun i => .partialInterface partialInterfaceTargets i.name) ++
    f.partialMixins.map (fun i => .partialInterface partialMixinTargets i.name) ++
    f.partialDictionaries.map (fun d => .partialDictionary d.name)

/-- All targets of some fragments in the order in which they are looked for: those of the partial
definitions, fragment by fragment, and behind them those of the includes statements. -/
def soughtTargets (fragments : List Fragment) : List Target :=
  fragments.flatMap Fragment.partialTargets ++
    (fragments.flatMap (·.includes)).map fun statement => .includes statement.target

/-- The first of some targets that a graph does not have. -/
def Graph.firstMissing? (g : Graph) (targets : List Target) : Option Target :=
  targets.find? fun t => !t.isIn g

namespace Graph

theorem firstMissing?_eq_none_iff {g : Graph} {targets : List Target} :
    g.firstMissing? targets = none ↔ ∀ t ∈ targets, t.isIn g = true := by
  simp [firstMissing?]

theorem firstMissing?_eq_some_iff {g : Graph} {targets : List Target} {t : Target} :
    g.firstMissing? targets = some t ↔ t.isIn g = false ∧
      ∃ before after, targets = before ++ t :: after ∧ ∀ u ∈ before, u.isIn g = true := by
  simp [firstMissing?, List.find?_eq_some_iff_append]

theorem firstMissing?_append (g : Graph) (l m : List Target) :
    g.firstMissing? (l ++ m) = (g.firstMissing? l).or (g.firstMissing? m) :=
  List.find?_append

theorem firstMissing?_congr {g g' : Graph} (h : ∀ t : Target, t.isIn g' = t.isIn g)
    (targets : List Target) : g'.firstMissing? targets = g.firstMissing? targets := by
  simp only [firstMissing?, h]

theorem isSome_locate? (g : Graph) (name : String) (places : List Collection) :
    (g.locate? name places).isSome = places.any fun c => (c.get? g name).isSome := by
  induction places with
  | nil => rfl
  | cons c rest ih =>
    rw [locate?, List.any_cons, ← ih]
    cases c.get? g name <;> rfl

end Graph

/-- Deprecation changes no name, so fragments refer to the same targets when they are stamped. -/
theorem soughtTargets_stampDeprecated (fragments : List Fragment) :
    soughtTargets (fragments.map Fragment.stampDeprecated) = soughtTargets fragments := by
  have hpartials : ∀ f : Fragment, f.stampDeprecated.partialTargets = f.partialTargets := by
    intro f
    rw [Fragment.stampDeprecated]
    split
    · simp only [Fragment.partialTargets, List.map_map]
      rfl
    · rfl
  have hincludes : ∀ f : Fragment, f.stampDeprecated.includes = f.includes := by
    intro f
    rw [Fragment.stampDeprecated]
    split <;> rfl
  simp only [soughtTargets, List.flatMap_map, hpartials, hincludes]

/-! ## Folds that look for targets -/

/-- The references that were left out. -/
def Report.skipped (r : Report) : Nat :=
  r.partialsSkipped + r.includesSkipped

/-- The options of a lenient integration. -/
def Options.lenient : Options := ⟨.skip⟩

/-- The options of a strict integration. -/
def Options.strict : Options := ⟨.fail⟩

/-- A fold that looks for some targets one after the other. Leniently it always ends, with all targets
in the graph that were there before and one more reference left out for each that was not; strictly
it does the same if none is missing, and fails at the first that is. -/
structure Seeks (fold : Options → Folded → Folding) (targets : List Target) : Prop where
  lenient : ∀ state, ∃ next, fold .lenient state = .ok next ∧
    (∀ t : Target, t.isIn next.graph = t.isIn state.graph) ∧
    next.report.skipped = state.report.skipped + targets.countP (!·.isIn state.graph)
  strict : ∀ state, state.graph.firstMissing? targets = none →
    fold .strict state = fold .lenient state
  missed : ∀ state t, state.graph.firstMissing? targets = some t →
    ∃ report, fold .strict state = .error ⟨t.missing, report⟩

namespace Seeks

variable {α : Type}

theorem nil : Seeks (fun _ state => .ok state) [] where
  lenient state := ⟨state, rfl, fun _ => rfl, rfl⟩
  strict _ _ := rfl
  missed _ _ h := by cases h

/-- One fold behind another looks for its targets in a graph that has the same of them. -/
theorem append {first second : Options → Folded → Folding} {l m : List Target}
    (hl : Seeks first l) (hm : Seeks second m) :
    Seeks (fun options state => first options state >>= second options) (l ++ m) where
  lenient state := by
    obtain ⟨mid, hmid, hin, hcount⟩ := hl.lenient state
    obtain ⟨next, hnext, hin', hcount'⟩ := hm.lenient mid
    refine ⟨next, bind_eq_ok_iff.2 ⟨mid, hmid, hnext⟩, fun t => (hin' t).trans (hin t), ?_⟩
    simp only [hcount', hcount, hin, List.countP_append, Nat.add_assoc]
  strict state h := by
    rw [Graph.firstMissing?_append, Option.or_eq_none_iff] at h
    obtain ⟨mid, hmid, hin, -⟩ := hl.lenient state
    have hnone : mid.graph.firstMissing? m = none := (Graph.firstMissing?_congr hin m).trans h.2
    rw [hl.strict state h.1, hmid]
    exact hm.strict mid hnone
  missed state t h := by
    rw [Graph.firstMissing?_append] at h
    cases hfirst : state.graph.firstMissing? l with
    | some u =>
      rw [hfirst, Option.some_or] at h
      cases h
      obtain ⟨report, hreport⟩ := hl.missed state t hfirst
      exact ⟨report, by rw [hreport]; rfl⟩
    | none =>
      rw [hfirst, Option.none_or] at h
      obtain ⟨mid, hmid, hin, -⟩ := hl.lenient state
      have hsome : mid.graph.firstMissing? m = some t := (Graph.firstMissing?_congr hin m).trans h
      obtain ⟨report, hreport⟩ := hm.missed mid t hsome
      exact ⟨report, by rw [hl.strict state hfirst, hmid]; exact hreport⟩

/-- A fold over a list looks for the targets of its items in their order. -/
theorem foldlM {step : Options → Folded → α → Folding} {targets : α → List Target}
    (hstep : ∀ a, Seeks (fun options state => step options state a) (targets a)) (l : List α) :
    Seeks (fun options state => l.foldlM (step options) state) (l.flatMap targets) := by
  induction l with
  | nil => exact nil
  | cons a rest ih =>
    simp only [List.foldlM_cons, List.flatMap_cons]
    exact (hstep a).append ih

/-- The same where each item has one target. -/
theorem foldlM_map {step : Options → Folded → α → Folding} {target : α → Target}
    (hstep : ∀ a, Seeks (fun options state => step options state a) [target a]) (l : List α) :
    Seeks (fun options state => l.foldlM (step options) state) (l.map target) := by
  rw [List.map_eq_flatMap]
  exact foldlM hstep l

/-- **One step.** It looks for its target if, where that is there, it does the same under all options
without leaving anything out, and if it is `Folded.missing` where it is not. -/
theorem single {step : Options → Folded → Folding} {t : Target} {kind : Reference} {name : String}
    (skipped : Folded → Report) (herror : t.missing = .unresolved kind name)
    (hskipped : ∀ state, (skipped state).skipped = state.report.skipped + 1)
    (hfound : ∀ state, t.isIn state.graph = true → ∃ next,
      (∀ options, step options state = .ok next) ∧
      (∀ u : Target, u.isIn next.graph = u.isIn state.graph) ∧
      next.report.skipped = state.report.skipped)
    (hmissing : ∀ options state, t.isIn state.graph = false →
      step options state = state.missing options kind name (skipped state)) :
    Seeks step [t] where
  lenient state := by
    cases ht : t.isIn state.graph with
    | true =>
      obtain ⟨next, hnext, hin, hreport⟩ := hfound state ht
      exact ⟨next, hnext _, hin, by simp [hreport, ht]⟩
    | false =>
      exact ⟨⟨state.graph, skipped state⟩, hmissing _ state ht, fun _ => rfl, by simp [hskipped, ht]⟩
  strict state h := by
    have ht : t.isIn state.graph = true := Graph.firstMissing?_eq_none_iff.1 h t (by simp)
    obtain ⟨next, hnext, -, -⟩ := hfound state ht
    rw [hnext, hnext]
  missed state u h := by
    have hu : u ∈ [t] := List.mem_of_find?_eq_some h
    obtain rfl : u = t := by simpa using hu
    have ht := (Graph.firstMissing?_eq_some_iff.1 h).1
    exact ⟨state.report, by rw [hmissing _ state ht, herror]; rfl⟩

end Seeks

/-! ## Steps -/

/-- Replacing an entry neither adds nor removes a target. -/
theorem Target.isIn_replace (c : Collection) (g : Graph) (name : String) (i : Interface)
    (t : Target) : t.isIn (c.replace g name i) = t.isIn g := by
  cases t with
  | partialInterface places key => simp only [isIn, Collection.isSome_get?_replace]
  | partialDictionary key => cases c <;> rfl
  | includes key => exact c.isSome_get?_replace .interfaces g name key i

theorem Target.isIn_modify_dictionary (g : Graph) (name : String) (f : Dictionary → Dictionary)
    (t : Target) :
    t.isIn { g with dictionaries := g.dictionaries.map (·.modify name f) } = t.isIn g := by
  cases t with
  | partialInterface places key =>
    simp only [isIn]
    congr 1
    funext c
    cases c <;> rfl
  | partialDictionary key =>
    simp only [isIn, Graph.dictionary?, Keyed.modify, lookup?_map_entries, Option.isSome_map]
  | includes key => rfl

theorem seeks_foldPartialInterface (places : List Collection) (addition : Interface) :
    Seeks (fun options state => foldPartialInterface options places state addition)
      [.partialInterface places addition.name] := by
  refine Seeks.single
    (fun state => { state.report with partialsSkipped := state.report.partialsSkipped + 1 })
    rfl (fun state => by simp only [Report.skipped]; omega) ?_ ?_
  · intro state hin
    rw [Target.isIn, ← Graph.isSome_locate?, Option.isSome_iff_exists] at hin
    obtain ⟨⟨c, base⟩, hlocate⟩ := hin
    obtain ⟨merged, hmerged⟩ := base.mergeMembers_override_total (base.exposedFor addition)
    refine ⟨⟨c.replace state.graph addition.name merged,
      { state.report with partialsFolded := state.report.partialsFolded + 1 }⟩,
      fun options => ?_, Target.isIn_replace c state.graph addition.name merged, rfl⟩
    rw [foldPartialInterface, hlocate]
    simp only [Interface.foldPartial_iff_mergeMembers.2 hmerged]
  · intro options state hin
    rw [Target.isIn, ← Graph.isSome_locate?, Option.isSome_eq_false_iff,
      Option.isNone_iff_eq_none] at hin
    rw [foldPartialInterface, hin]

theorem seeks_foldPartialDictionary (addition : Dictionary) :
    Seeks (fun options state => foldPartialDictionary options state addition)
      [.partialDictionary addition.name] := by
  refine Seeks.single
    (fun state => { state.report with partialsSkipped := state.report.partialsSkipped + 1 })
    rfl (fun state => by simp only [Report.skipped]; omega) ?_ ?_
  · intro state hin
    obtain ⟨base, hbase⟩ := Option.isSome_iff_exists.1 hin
    obtain ⟨merged, hmerged⟩ := base.mergeMembers_override_total addition
    refine ⟨⟨{ state.graph with
        dictionaries := state.graph.dictionaries.map (·.modify addition.name fun _ => merged) },
      { state.report with partialsFolded := state.report.partialsFolded + 1 }⟩,
      fun options => ?_, Target.isIn_modify_dictionary state.graph addition.name _, rfl⟩
    rw [foldPartialDictionary, hbase]
    simp only [hmerged]
  · intro options state hin
    rw [Target.isIn, Option.isSome_eq_false_iff, Option.isNone_iff_eq_none] at hin
    rw [foldPartialDictionary, hin]

theorem seeks_foldInclude (statement : Include) :
    Seeks (fun options state => foldInclude options state statement)
      [.includes statement.target] := by
  refine Seeks.single
    (fun state => { state.report with includesSkipped := state.report.includesSkipped + 1 })
    rfl (fun state => by simp only [Report.skipped]; omega) ?_ ?_
  · intro state hin
    obtain ⟨i, hi⟩ := Option.isSome_iff_exists.1 hin
    refine ⟨⟨Collection.interfaces.replace state.graph statement.target
        (i.including statement.includes),
      { state.report with includesFolded := state.report.includesFolded + 1 }⟩,
      fun options => ?_, Target.isIn_replace .interfaces state.graph statement.target _, rfl⟩
    rw [foldInclude, hi]
  · intro options state hin
    rw [Target.isIn, Option.isSome_eq_false_iff, Option.isNone_iff_eq_none] at hin
    rw [foldInclude, hin]

/-! ## Whole folds -/

theorem seeks_foldFragment (f : Fragment) :
    Seeks (fun options state => foldFragment options state f) f.partialTargets := by
  have hinterfaces := Seeks.foldlM_map (seeks_foldPartialInterface partialInterfaceTargets)
    f.partialInterfaces
  have hmixins := Seeks.foldlM_map (seeks_foldPartialInterface partialMixinTargets) f.partialMixins
  have hdictionaries := Seeks.foldlM_map seeks_foldPartialDictionary f.partialDictionaries
  simpa only [foldFragment, Fragment.partialTargets, bind_assoc] using
    (hinterfaces.append hmixins).append hdictionaries

/-- Folds the partial definitions of all fragments, and behind them the includes statements. -/
def foldReferences (options : Options) (fragments : List Fragment) (state : Folded) : Folding :=
  foldPartials options fragments state >>= foldIncludes options fragments

/-- **Folding looks for the targets of the fragments in order.** -/
theorem seeks_foldReferences (fragments : List Fragment) :
    Seeks (fun options state => foldReferences options fragments state) (soughtTargets fragments) :=
  (Seeks.foldlM seeks_foldFragment fragments).append (Seeks.foldlM_map seeks_foldInclude _)

/-- The same of the fragments as an integration folds them. -/
theorem seeks_foldStamped (fragments : List Fragment) :
    Seeks (fun options state =>
      foldReferences options (fragments.map Fragment.stampDeprecated) state)
      (soughtTargets fragments) := by
  rw [← soughtTargets_stampDeprecated]
  exact seeks_foldReferences _

/-! ## Integration -/

/-- The folded graph corrected, and the report completed. -/
def Folded.finish (state : Folded) (corrections : Corrections) :
    Except IntegrationError (Graph × Report) := do
  let (g, overridden) ← state.graph.correct corrections
  pure (g, { state.report with exposureOverrides := overridden })

/-- An integration is its merge of complete definitions, the folds and the corrections. -/
theorem integrate_eq (options : Options) (baseline : Graph) (fragments : List Fragment)
    (corrections : Corrections) :
    integrate options baseline fragments corrections =
      mergeStandard baseline (fragments.map Fragment.stampDeprecated) >>= fun g =>
        (foldReferences options (fragments.map Fragment.stampDeprecated)
          ⟨g, Report.start fragments⟩).mapError (·.error) >>= fun folded =>
            folded.finish corrections := by
  simp only [integrate, foldReferences, mapError_bind, bind_assoc, Folded.finish]

theorem Folded.skipped_of_finish {state : Folded} {corrections : Corrections} {x : Graph × Report}
    (h : state.finish corrections = .ok x) : x.2.skipped = state.report.skipped := by
  obtain ⟨⟨g, overridden⟩, -, h⟩ := bind_eq_ok_iff.1 h
  cases h
  rfl

section Runs

variable {baseline merged : Graph} {fragments : List Fragment} {corrections : Corrections}
  (hmerge : mergeStandard baseline (fragments.map Fragment.stampDeprecated) = .ok merged)
include hmerge

theorem integrate_of_mergeStandard (options : Options) :
    integrate options baseline fragments corrections =
      (foldReferences options (fragments.map Fragment.stampDeprecated)
        ⟨merged, Report.start fragments⟩).mapError (·.error) >>= fun folded =>
          folded.finish corrections := by
  rw [integrate_eq, hmerge]
  rfl

/-- A lenient integration that ends well has left out one reference for each missing target. -/
theorem skipped_of_integrate_lenient {x : Graph × Report}
    (h : integrate .lenient baseline fragments corrections = .ok x) :
    x.2.skipped = (soughtTargets fragments).countP (!·.isIn merged) := by
  obtain ⟨next, hnext, -, hskipped⟩ :=
    (seeks_foldStamped fragments).lenient ⟨merged, Report.start fragments⟩
  rw [integrate_of_mergeStandard hmerge, hnext] at h
  rw [Folded.skipped_of_finish h, hskipped]
  simp [Report.skipped, Report.start]

theorem integrate_strict_of_found (h : merged.firstMissing? (soughtTargets fragments) = none) :
    integrate .strict baseline fragments corrections =
      integrate .lenient baseline fragments corrections := by
  rw [integrate_of_mergeStandard hmerge, integrate_of_mergeStandard hmerge,
    (seeks_foldStamped fragments).strict _ h]

theorem integrate_strict_of_missing {t : Target}
    (h : merged.firstMissing? (soughtTargets fragments) = some t) :
    integrate .strict baseline fragments corrections = .error t.missing := by
  obtain ⟨report, hreport⟩ :=
    (seeks_foldStamped fragments).missed ⟨merged, Report.start fragments⟩ t h
  rw [integrate_of_mergeStandard hmerge, hreport]
  rfl

end Runs

/-- **Strict integrations refine lenient ones**: they end well where those do and have left nothing
out, with the same graph and the same report, and where only a target is missing they fail at the
first that is. -/
theorem integrate_strict (baseline : Graph) (fragments : List Fragment) (corrections : Corrections) :
    (∀ x : Graph × Report, integrate .strict baseline fragments corrections = .ok x ↔
      integrate .lenient baseline fragments corrections = .ok x ∧
        x.2.partialsSkipped = 0 ∧ x.2.includesSkipped = 0) ∧
    ∀ merged, mergeStandard baseline (fragments.map Fragment.stampDeprecated) = .ok merged →
      (∃ t ∈ soughtTargets fragments, t.isIn merged = false) →
        ∃ before t after, soughtTargets fragments = before ++ t :: after ∧
          (∀ u ∈ before, u.isIn merged = true) ∧ t.isIn merged = false ∧
          integrate .strict baseline fragments corrections = .error t.missing := by
  constructor
  · intro x
    cases hmerge : mergeStandard baseline (fragments.map Fragment.stampDeprecated) with
    | error e =>
      have hfails : ∀ options, integrate options baseline fragments corrections = .error e :=
        fun options => by rw [integrate_eq, hmerge]; rfl
      simp [hfails]
    | ok merged =>
      have hzero : x.2.partialsSkipped = 0 ∧ x.2.includesSkipped = 0 ↔ x.2.skipped = 0 := by
        rw [Report.skipped, Nat.add_eq_zero_iff]
      rw [hzero]
      cases hfirst : merged.firstMissing? (soughtTargets fragments) with
      | none =>
        rw [integrate_strict_of_found hmerge hfirst, iff_self_and]
        intro h
        rw [skipped_of_integrate_lenient hmerge h, List.countP_eq_zero]
        simpa using Graph.firstMissing?_eq_none_iff.1 hfirst
      | some t =>
        rw [integrate_strict_of_missing hmerge hfirst]
        constructor
        · nofun
        · -- the first missing target is among those that the lenient run has left out
          rintro ⟨h, hskipped⟩
          rw [skipped_of_integrate_lenient hmerge h, List.countP_eq_zero] at hskipped
          have hmissing := List.find?_some hfirst
          exact absurd hmissing (hskipped t (List.mem_of_find?_eq_some hfirst))
  · rintro merged hmerge ⟨u, hu, hmissing⟩
    cases hfirst : merged.firstMissing? (soughtTargets fragments) with
    | none =>
      have hin := Graph.firstMissing?_eq_none_iff.1 hfirst u hu
      exact absurd (hin.symm.trans hmissing) (by simp)
    | some t =>
      obtain ⟨ht, before, after, heq, hbefore⟩ := Graph.firstMissing?_eq_some_iff.1 hfirst
      exact ⟨before, t, after, heq, hbefore, ht, integrate_strict_of_missing hmerge hfirst⟩

/-- A graph with an interface and a mixin. -/
def reefGraph : Graph where
  interfaces := some (.ofList [("Reef", { name := "Reef" })])
  mixins := some (.ofList [("Coral", { name := "Coral" })])

/-- Fragments with targets that are there and targets that are not. The includes statement stands in
the first of them, and the partial dictionary in the second. -/
def reefFragments : List Fragment := [
  { partialInterfaces := [{ name := "Reef" }, { name := "Coral" }]
    includes := [⟨"Atoll", "Coral"⟩] },
  { deprecated := true
    partialMixins := [{ name := "Coral" }]
    partialDictionaries := [{ name := "Tide" }] }]

/-- The partial dictionary is looked for before the interface that includes a mixin. -/
theorem reefGraph_strict :
    mergeStandard reefGraph (reefFragments.map Fragment.stampDeprecated) = .ok reefGraph ∧
      (Target.includes "Atoll").isIn reefGraph = false ∧
      (Target.partialDictionary "Tide").isIn reefGraph = false ∧
      integrate .strict reefGraph reefFragments {} =
        .error (.unresolved .partialDictionary "Tide") := by
  have hmerge : mergeStandard reefGraph (reefFragments.map Fragment.stampDeprecated) =
      .ok reefGraph := by decide +kernel
  have hatoll : (Target.includes "Atoll").isIn reefGraph = false := by decide +kernel
  have htide : (Target.partialDictionary "Tide").isIn reefGraph = false := by decide +kernel
  have hfirst : reefGraph.firstMissing? (soughtTargets reefFragments) =
      some (.partialDictionary "Tide") := by decide +kernel
  obtain ⟨before, t, after, heq, hbefore, ht, hfails⟩ :=
    (integrate_strict reefGraph reefFragments {}).2 reefGraph hmerge ⟨_, by decide, hatoll⟩
  have hsome := Graph.firstMissing?_eq_some_iff.2 ⟨ht, before, after, heq, hbefore⟩
  obtain rfl : Target.partialDictionary "Tide" = t := Option.some.inj (hfirst.symm.trans hsome)
  exact ⟨hmerge, hatoll, htide, hfails⟩

end IdlDecls
