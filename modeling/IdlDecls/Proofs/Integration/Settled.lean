import IdlDecls.Proofs.Integration.Conventions
import IdlDecls.Proofs.Removal.Spared

/-!
# Finished graphs

Without fragments and corrections only two phases can do something to a baseline: pruning, which writes
the graph out and reads it again, and overriding exposures. What is plain comes back from its written
form, and overriding exposures leave nothing to be overridden a second time. So a run on a finished
graph gives back that graph (`integrate_settles`).
-/

namespace IdlDecls

open Merge Merging

/-! ## Phases without anything to do -/

/-- A graph with nothing in it changes nothing, under every policy. -/
theorem Graph.merge_empty (policy : MergePolicy) (g : Graph) : g.merge policy ∅ = .ok g := by
  refine Graph.merge_eq_ok_iff.2 ⟨?_, ?_, ?_, ?_, ?_, ?_, optional_none _ _, rfl, rfl⟩
  all_goals exact within_eq_ok_iff.2 (optional_none _ _)

theorem Graph.Follows.prune_keepAll {g : Graph} (h : g.Follows .plain) :
    g.prune .keepAll = .ok g :=
  Graph.prune_of_misses h.ofJson_toValue (.nested fun _ _ _ ht => by cases ht)

/-- **Without fragments and corrections** a run does nothing but override exposures. -/
theorem Graph.Follows.integrate_alone {g : Graph} (h : g.Follows .plain) (options : Options) :
    integrate options g [] {} =
      (fun x => (x.1, { exposureOverrides := x.2 })) <$> g.applyExposureOverrides := by
  have hcorrect : g.correct {} = g.applyExposureOverrides := by
    simp only [Graph.correct, h.prune_keepAll, Graph.mergeAdditions, Graph.mergeOverrides,
      Graph.mergeComments, Graph.merge_empty]
    rfl
  have hfold : integrate options g [] {} =
      g.correct {} >>= fun x => pure (x.1, { exposureOverrides := x.2 }) := rfl
  rw [hfold, hcorrect]
  cases g.applyExposureOverrides <;> rfl

/-! ## Overriding twice -/

/-- An overriding exposure is applied once and for all. -/
theorem Interface.applyOverride_applyOverride (i : Interface) :
    i.applyOverride.applyOverride = i.applyOverride := by
  cases he : i.overrideExposed with
  | none =>
    have hsame : i.applyOverride = i := by rw [applyOverride, he]
    rw [hsame, hsame]
  | some e =>
    have hover : i.applyOverride.overrideExposed = some e := by
      rw [overrideExposed_applyOverride, he]
    rw [applyOverride_of_some hover, applyOverride_of_some he, expose_force_expose e]

theorem Graph.applyExposureOverrides_again {g result : Graph} {count : Nat}
    (h : g.applyExposureOverrides = .ok (result, count)) :
    result.applyExposureOverrides = .ok (result, count) := by
  obtain ⟨hnonempty, rfl, rfl⟩ := Graph.applyExposureOverrides_eq_ok_iff.1 h
  refine Graph.applyExposureOverrides_eq_ok_iff.2 ⟨?_, ?_, (countP_applyOverride g.interfaces).symm⟩
  · intro key i hi
    rw [Graph.interface?, lookup?_map_values] at hi
    obtain ⟨old, hold, rfl⟩ := Option.map_eq_some_iff.1 hi
    rw [Interface.overrideExposed_applyOverride]
    exact hnonempty key old hold
  · rw [map_entries_idem fun _ i => i.applyOverride_applyOverride]

/-! ## Finished graphs -/

/-- A graph of a data file, in which no context of an exposure holds a blank. -/
def Graph.OfPlainFile (g : Graph) : Prop :=
  (∃ j, Graph.ofJson j = .ok g) ∧ ∀ e ∈ g.exposures, e.Plain

/-- A fragment of a data file, in which no context of an exposure holds a blank. -/
def Fragment.OfPlainFile (f : Fragment) : Prop :=
  (∃ j, Fragment.ofJson j = .ok f) ∧ ∀ e ∈ f.exposures, e.Plain

theorem Graph.OfPlainFile.follows {g : Graph} (h : g.OfPlainFile) : g.Follows .plain := by
  obtain ⟨⟨j, hj⟩, hexposures⟩ := h
  exact Graph.follows_plain_of_ofJson hj hexposures

theorem Fragment.OfPlainFile.follows {f : Fragment} (h : f.OfPlainFile) : f.Follows .plain := by
  obtain ⟨⟨j, hj⟩, hexposures⟩ := h
  obtain ⟨htidy, -, hliterals, hnames⟩ := Fragment.follows_iff.1 (Fragment.follows_of_ofJson hj)
  exact Fragment.follows_iff.2 ⟨htidy, hexposures, hliterals, hnames⟩

/-- **A finished graph is a fixed point.** Integrating a plain graph of a data file with nothing ends as
overriding its exposures does, in the same graph or for the same cause. After any run on plain data
files, integrating the result with nothing gives the result again, under any options. -/
theorem integrate_settles :
    (∀ (options : Options) (g : Graph), g.OfPlainFile →
      integrate options g [] {} =
        (fun x => (x.1, { exposureOverrides := x.2 })) <$> g.applyExposureOverrides) ∧
    ∀ (options options' : Options) (baseline : Graph) (fragments : List Fragment)
      (corrections : Corrections) (g : Graph) (report : Report),
      baseline.OfPlainFile → (∀ f ∈ fragments, f.OfPlainFile) →
      corrections.additions.OfPlainFile → corrections.overrides.OfPlainFile →
      corrections.comments.OfPlainFile →
      integrate options baseline fragments corrections = .ok (g, report) →
      integrate options' g [] {} = .ok (g, { exposureOverrides := report.exposureOverrides }) := by
  refine ⟨fun options g hg => hg.follows.integrate_alone options, ?_⟩
  intro options options' baseline fragments corrections g report hb hf ha ho hc h
  obtain ⟨p, rfl, rfl⟩ := integrate_phases h
  have hresult : p.result.Follows .plain := p.follows_result hb.follows
    (fun f hmem => (hf f hmem).follows) ⟨ha.follows, ho.follows, hc.follows⟩
  rw [hresult.integrate_alone options', Graph.applyExposureOverrides_again p.exposing]
  rfl

/-- A data file with an interface for windows that is to be shown to workers. -/
def pierJson : Json :=
  .obj [("interfaces", .obj [("interface", .obj [("Pier", .obj [
    ("exposed", .str "Window"), ("override-exposed", .str "Worker"),
    ("methods", .obj [("method", .obj [("moor", .obj [])])])])])])]

/-- The graph of this data file. -/
def pierGraph : Graph where
  interfaces := some (.ofList [("Pier", {
    name := "Pier"
    methods := some (.ofList [("moor", { name := "moor" })])
    exposed := some (.ofText "Window")
    overrideExposed := some (.ofText "Worker") })])

/-- A data file with a partial definition of the interface. -/
def pierFragmentJson : Json :=
  .obj [("partialInterfaces", .arr [.obj [("name", .str "Pier"),
    ("properties", .obj [("property", .obj [("depth", .obj [])])])]])]

/-- The fragment of this data file. -/
def pierFragment : Fragment where
  partialInterfaces := [{
    name := "Pier"
    properties := some (.ofList [("depth", { name := "depth" })]) }]

/-- The interface after the fragment is integrated. -/
def pierResult : Graph where
  interfaces := some (.ofList [("Pier", {
    name := "Pier"
    methods := some (.ofList [("moor", { name := "moor", exposed := some (.ofText "Worker") })])
    properties := some (.ofList [("depth", { name := "depth", exposed := some (.ofText "Worker") })])
    exposed := some (.ofText "Worker")
    overrideExposed := some (.ofText "Worker") })])

/-- The baseline changes by itself, and the result with the fragment changes no more. -/
theorem pierGraph_settles :
    pierGraph.OfPlainFile ∧ pierFragment.OfPlainFile ∧ (∅ : Graph).OfPlainFile ∧
      integrate {} pierGraph [] {} =
        (fun x => (x.1, { exposureOverrides := x.2 })) <$> pierGraph.applyExposureOverrides ∧
      integrate {} pierGraph [pierFragment] {} =
        .ok (pierResult, { fragments := 1, partialsFolded := 1, exposureOverrides := 1 }) ∧
      integrate { unresolved := .fail } pierResult [] {} =
        .ok (pierResult, { exposureOverrides := 1 }) := by
  have hgraph : pierGraph.OfPlainFile := ⟨⟨pierJson, by decide +kernel⟩, by decide +kernel⟩
  have hfragment : pierFragment.OfPlainFile :=
    ⟨⟨pierFragmentJson, by decide +kernel⟩, by decide +kernel⟩
  have hempty : (∅ : Graph).OfPlainFile := ⟨⟨.obj [], rfl⟩, by decide +kernel⟩
  have hrun : integrate {} pierGraph [pierFragment] {} =
      .ok (pierResult, { fragments := 1, partialsFolded := 1, exposureOverrides := 1 }) := by
    decide +kernel
  have hagain := integrate_settles.2 {} { unresolved := .fail } pierGraph [pierFragment] {} pierResult
    _ hgraph (by simpa using hfragment) hempty hempty hempty hrun
  exact ⟨hgraph, hfragment, hempty, integrate_settles.1 {} pierGraph hgraph, hrun, hagain⟩

end IdlDecls
