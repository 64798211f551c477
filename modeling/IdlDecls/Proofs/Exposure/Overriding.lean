import IdlDecls.Proofs.Exposure.Resolved
import IdlDecls.Proofs.Integration.Phases
import IdlDecls.Proofs.View.Selected

/-!
# Overriding exposures

The last phase of an integration gives an interface with an overriding exposure that exposure, and
with it everything that the interface holds. What the phases before it left there plays no part.
A view therefore shows such an interface as a whole or not at all
(`integrate_exposes_overridden`).
-/

namespace IdlDecls

/-! ## Exposed throughout -/

/-- An interface with one exposure, which everything that it holds has as well. -/
structure Interface.ExposedThroughout (i : Interface) (e : Exposure) : Prop where
  nonempty : e.isEmpty = false
  exposed : i.exposed = some e
  constants : ∀ name c, i.constant? name = some c → c.exposed = some e
  methods : ∀ name m, i.method? name = some m → m.exposed = some e
  properties : ∀ name p, i.property? name = some p → p.exposed = some e
  constructor : ∀ c, i.constructor = some c → c.exposed = some e

/-- Force reaches every kind of member. -/
theorem Interface.exposedThroughout_expose {e : Exposure} (he : e.isEmpty = false) (i : Interface) :
    (i.expose .force e).ExposedThroughout e where
  nonempty := he
  exposed := rfl
  constants := by
    intro name c h
    rw [constant?_expose] at h
    obtain ⟨_, -, rfl⟩ := Option.map_eq_some_iff.1 h
    rfl
  methods := by
    intro name m h
    rw [method?_expose] at h
    obtain ⟨_, -, rfl⟩ := Option.map_eq_some_iff.1 h
    rfl
  properties := by
    intro name p h
    rw [property?_expose] at h
    obtain ⟨_, -, rfl⟩ := Option.map_eq_some_iff.1 h
    rfl
  constructor := by
    intro c h
    obtain ⟨_, -, rfl⟩ := Option.map_eq_some_iff.1 h
    rfl

/-- A member with the exposure of its interface is visible wherever that exposure is. -/
theorem isMemberVisible_of_exposed {context : String} {e : Exposure} {own : Option Exposure}
    (he : e.isEmpty = false) (hown : own = some e) (parent : Option Exposure) :
    isMemberVisible context parent own = isExposedIn (some e) context := by
  have heff : effectiveExposure own parent = some e := by
    simp [effectiveExposure, hown, Exposure.nonempty?, he]
  simp [isMemberVisible, heff]

/-- **A context sees such an interface as a whole or not at all.** -/
theorem Interface.ExposedThroughout.select {i : Interface} {e : Exposure}
    (h : i.ExposedThroughout e) (context : String) :
    Graph.selectInterface? context [] i = if isExposedIn (some e) context then some i else none := by
  simp only [Graph.selectInterface?, h.exposed, List.contains_nil, Bool.or_false]
  split
  · rename_i hvisible
    have hmember {own : Option Exposure} (hown : own = some e) (parent : Option Exposure) :
        isMemberVisible context parent own = true :=
      (isMemberVisible_of_exposed h.nonempty hown parent).trans hvisible
    rw [scopedTo_eq_self]
    · exact fun name c hc => hmember (h.constants name c hc) _
    · exact fun name m hm => hmember (h.methods name m hm) _
    · exact fun name p hp => hmember (h.properties name p hp) _
    · exact fun c hc => hmember (h.constructor c hc) _
  · rfl

/-! ## The last phase -/

@[simp] theorem Interface.overrideExposed_applyOverride (i : Interface) :
    i.applyOverride.overrideExposed = i.overrideExposed := by
  unfold applyOverride
  split <;> rfl

theorem Interface.applyOverride_of_some {i : Interface} {e : Exposure}
    (h : i.overrideExposed = some e) : i.applyOverride = i.expose .force e := by
  simp only [applyOverride, h]

namespace Graph

/-- A refused exposure is empty; without one, the phase goes over every interface. -/
theorem applyExposureOverrides_eq_ok_iff {g h : Graph} {n : Nat} :
    g.applyExposureOverrides = .ok (h, n) ↔
      (∀ key i, g.interface? key = some i → i.overrideExposed.any (·.isEmpty) = false) ∧
      h = { g with interfaces := g.interfaces.map (·.map fun _ i => i.applyOverride) } ∧
      n = (valuesOf g.interfaces).countP (·.overrideExposed.isSome) := by
  simp only [applyExposureOverrides]
  split
  · rename_i i hfind
    obtain ⟨key, hkey⟩ := mem_valuesOf.1 (List.mem_of_find?_eq_some hfind)
    have hempty := List.find?_some hfind
    simp only [reduceCtorEq, false_iff, not_and]
    intro hall
    rw [hall key i hkey] at hempty
    cases hempty
  · rename_i hfind
    have hall : ∀ key i, g.interface? key = some i → i.overrideExposed.any (·.isEmpty) = false := by
      intro key i hi
      simpa using List.find?_eq_none.1 hfind i (mem_valuesOf.2 ⟨key, hi⟩)
    simp only [Except.ok.injEq, Prod.mk.injEq]
    exact ⟨fun ⟨hg, hn⟩ => ⟨hall, hg.symm, hn.symm⟩, fun ⟨_, hg, hn⟩ => ⟨hg.symm, hn.symm⟩⟩

/-- Going over the interfaces leaves their overriding exposures, and so their number. -/
theorem countP_applyOverride (c : Option (Keyed Interface)) :
    (valuesOf (c.map (·.map fun _ i => i.applyOverride))).countP (·.overrideExposed.isSome) =
      (valuesOf c).countP (·.overrideExposed.isSome) := by
  cases c with
  | none => rfl
  | some m =>
    have hvalues : (m.map fun _ i => i.applyOverride).values = m.values.map (·.applyOverride) := by
      simp [Keyed.values, Keyed.map, Function.comp_def]
    simp only [Option.map_some, valuesOf, hvalues, List.countP_map]
    apply List.countP_congr
    intro i _
    simp

/-- After the last phase an interface with an overriding exposure has it throughout. -/
theorem exposedThroughout_of_applyExposureOverrides {g h : Graph} {n : Nat}
    (hok : g.applyExposureOverrides = .ok (h, n)) {key : String} {i : Interface} {e : Exposure}
    (hi : h.interface? key = some i) (he : i.overrideExposed = some e) : i.ExposedThroughout e := by
  obtain ⟨hall, rfl, -⟩ := applyExposureOverrides_eq_ok_iff.1 hok
  simp only [interface?, lookup?_map, Option.bind_eq_some_iff, Keyed.get?_map,
    Option.map_eq_some_iff] at hi
  obtain ⟨m, hm, j, hj, rfl⟩ := hi
  rw [Interface.overrideExposed_applyOverride] at he
  have hnonempty : e.isEmpty = false := by
    have := hall key j (by simp [interface?, hm, hj])
    simpa [he] using this
  rw [Interface.applyOverride_of_some he]
  exact Interface.exposedThroughout_expose hnonempty j

end Graph

/-! ## Whole integrations -/

/-- **An integration exposes what is overridden throughout.** Whatever its inputs say of exposures,
an interface with an overriding exposure has it itself and on everything that it holds, and the
report counts these interfaces. Where interfaces go by their keys, the view of a context without
known types has such an interface unchanged if the exposure is visible in the context, and does not
have it otherwise. -/
theorem integrate_exposes_overridden {options : Options} {baseline : Graph}
    {fragments : List Fragment} {corrections : Corrections} {g : Graph} {report : Report}
    (h : integrate options baseline fragments corrections = .ok (g, report)) :
    (∀ key i e, g.interface? key = some i → i.overrideExposed = some e → i.ExposedThroughout e) ∧
    report.exposureOverrides = (valuesOf g.interfaces).countP (·.overrideExposed.isSome) ∧
    (NamesAreKeys Interface.name g.interfaces → ∀ context, Text.blank context = false →
      ∃ v, g.view context [] = .ok v ∧
        ∀ key i e, g.interface? key = some i → i.overrideExposed = some e →
          v.interface? key = if isExposedIn (some e) context then some i else none) := by
  obtain ⟨p, rfl, rfl⟩ := integrate_phases h
  have hthroughout : ∀ key i e, p.result.interface? key = some i → i.overrideExposed = some e →
      i.ExposedThroughout e :=
    fun key i e hi he => Graph.exposedThroughout_of_applyExposureOverrides p.exposing hi he
  refine ⟨hthroughout, ?_, ?_⟩
  · obtain ⟨-, hresult, hcount⟩ := Graph.applyExposureOverrides_eq_ok_iff.1 p.exposing
    simp only [hresult, Graph.countP_applyOverride, hcount]
  · intro hnames context hcontext
    refine ⟨_, Graph.view_eq_ok p.result [] hcontext, ?_⟩
    intro key i e hi he
    rw [Graph.interface?_viewParts, Graph.get?_viewInterfaces hnames, hi, Option.bind_some]
    exact (hthroughout key i e hi he).select context

/-- A baseline that shows a node to windows. -/
def windowNode : Graph where
  interfaces := some (.ofList [("Node", {
    name := "Node"
    exposed := some (.ofText "Window")
    methods := some (.ofList [("clone", { name := "clone", exposed := some (.ofText "Window") })]) })])

/-- A fragment that gives the node an identifier. -/
def nodeIdentifier : Fragment where
  partialInterfaces := [{
    name := "Node"
    properties := some (.ofList [("id", { name := "id" })]) }]

/-- Overriding types that show the node to workers. -/
def nodeForWorkers : Corrections where
  overrides := {
    interfaces := some (.ofList [("Node", { overrideExposed := some (.ofText "Worker") })]) }

/-- The node as the integration leaves it. -/
def workerNode : Interface where
  name := "Node"
  exposed := some (.ofText "Worker")
  overrideExposed := some (.ofText "Worker")
  methods := some (.ofList [("clone", { name := "clone", exposed := some (.ofText "Worker") })])
  properties := some (.ofList [("id", { name := "id", exposed := some (.ofText "Worker") })])

/-- The node moves from windows to workers with the method that it had and the property that it
got. -/
theorem integrate_exposes_workerNode :
    ∃ g report, integrate {} windowNode [nodeIdentifier] nodeForWorkers = .ok (g, report) ∧
      g.interface? "Node" = some workerNode ∧
      workerNode.ExposedThroughout (.ofText "Worker") ∧ report.exposureOverrides = 1 ∧
      (∃ v, g.view "Worker" [] = .ok v ∧ v.interface? "Node" = some workerNode) ∧
      ∃ v, g.view "Window" [] = .ok v ∧ v.interface? "Node" = none := by
  have h : integrate {} windowNode [nodeIdentifier] nodeForWorkers =
      .ok ({ interfaces := some (.ofList [("Node", workerNode)]) },
        { fragments := 1, partialsFolded := 1, exposureOverrides := 1 }) := by decide +kernel
  obtain ⟨hthroughout, hcount, hview⟩ := integrate_exposes_overridden h
  have hview := hview (by decide +kernel)
  obtain ⟨v, hv, hworker⟩ := hview "Worker" (by decide)
  obtain ⟨w, hw, hwindow⟩ := hview "Window" (by decide)
  exact ⟨_, _, h, by decide +kernel, hthroughout "Node" workerNode _ (by decide +kernel) rfl, hcount,
    ⟨v, hv, (hworker "Node" workerNode _ (by decide +kernel) rfl).trans (by decide +kernel)⟩,
    ⟨w, hw, (hwindow "Node" workerNode _ (by decide +kernel) rfl).trans (by decide +kernel)⟩⟩

end IdlDecls
