import IdlDecls.Integration.Exposing
import IdlDecls.Proofs.Keyed.Joined

/-!
# Resolved exposures

An exposure without contexts is refused, and the interface that it was meant for is left as it was. Any
other reaches the interface, its members of every kind and its constructor, and afterwards none of these
places is without contexts (`Interface.Resolved`). Nothing else of the interface changes, its overriding
exposure neither. Two exposures that are applied one after the other act on an interface as they act on
a single place (`Interface.expose_expose`), so filling leaves nothing to be filled, and forcing forgets
what came before (`Interface.resolveExposure_laws`).
-/

namespace IdlDecls

/-! ## Places -/

theorem Exposure.nonempty?_some {e : Exposure} (h : e.isEmpty = false) :
    nonempty? (some e) = some e := by
  simp [nonempty?, h]

/-- A place that has contexts is not emptied. -/
theorem Exposure.nonempty?_eq_self {place : Option Exposure} (h : (nonempty? place).isSome) :
    nonempty? place = place := by
  obtain ⟨e, he⟩ := Option.isSome_iff_exists.1 h
  obtain ⟨rfl, -⟩ := Option.filter_eq_some_iff.1 he
  exact he

namespace ExposureMode

/-- What becomes of the exposure of a place. It is `e` wherever `e` is forced, and wherever the place had
no contexts; otherwise the place keeps what it had. -/
structure Settles (mode : ExposureMode) (e : Exposure) (old new : Option Exposure) : Prop where
  nonempty : (Exposure.nonempty? new).isSome
  forced : mode = .force → new = some e
  kept : mode = .inherit → (Exposure.nonempty? old).isSome → new = old
  filled : mode = .inherit → Exposure.nonempty? old = none → new = some e

theorem apply_inherit_of_isSome (e : Exposure) {place : Option Exposure}
    (h : (Exposure.nonempty? place).isSome) : apply .inherit e place = place := by
  obtain ⟨own, hown⟩ := Option.isSome_iff_exists.1 h
  rw [apply, hown, Option.some_or, ← hown, Exposure.nonempty?_eq_self h]

theorem apply_inherit_of_eq_none (e : Exposure) {place : Option Exposure}
    (h : Exposure.nonempty? place = none) : apply .inherit e place = some e := by
  rw [apply, h, Option.none_or]

/-- **A single place is settled** by an exposure that has contexts. -/
theorem settles_apply (mode : ExposureMode) {e : Exposure} (he : e.isEmpty = false)
    (place : Option Exposure) : mode.Settles e place (mode.apply e place) := by
  have hsome : (Exposure.nonempty? (some e)).isSome := by
    rw [Exposure.nonempty?_some he]
    rfl
  cases mode with
  | force => exact ⟨hsome, fun _ => rfl, nofun, nofun⟩
  | inherit =>
    refine ⟨?_, nofun, fun _ => apply_inherit_of_isSome e, fun _ => apply_inherit_of_eq_none e⟩
    cases hplace : Exposure.nonempty? place with
    | none => rwa [apply_inherit_of_eq_none e hplace]
    | some own =>
      have hown : (Exposure.nonempty? place).isSome := Option.isSome_iff_exists.2 ⟨own, hplace⟩
      rwa [apply_inherit_of_isSome e hown]

/-- A settled place has nothing to inherit. -/
theorem apply_inherit_apply (mode : ExposureMode) {e : Exposure} (he : e.isEmpty = false)
    (later : Exposure) (place : Option Exposure) :
    apply .inherit later (mode.apply e place) = mode.apply e place :=
  apply_inherit_of_isSome later (settles_apply mode he place).nonempty

end ExposureMode

/-! ## Interfaces -/

namespace Interface

variable (mode : ExposureMode) (e : Exposure) (i : Interface)

theorem constant?_expose (name : String) : (i.expose mode e).constant? name =
    (i.constant? name).map fun c => { c with exposed := mode.apply e c.exposed } :=
  lookup?_map_values _ i.constants name

theorem method?_expose (name : String) : (i.expose mode e).method? name =
    (i.method? name).map fun m => { m with exposed := mode.apply e m.exposed } :=
  lookup?_map_values _ i.methods name

theorem property?_expose (name : String) : (i.expose mode e).property? name =
    (i.property? name).map fun p => { p with exposed := mode.apply e p.exposed } :=
  lookup?_map_values _ i.properties name

/-- The interface `j` is `i` with an exposure applied. It has the same members with the same fields, and
each place where an exposure may stand is settled. -/
structure Resolved (j : Interface) : Prop where
  others : j = { i with
    exposed := j.exposed
    constants := j.constants
    methods := j.methods
    properties := j.properties
    constructor := j.constructor }
  exposed : mode.Settles e i.exposed j.exposed
  constants : AlikeEntries (fun c d => d = { c with exposed := d.exposed } ∧
    mode.Settles e c.exposed d.exposed) i.constants j.constants
  methods : AlikeEntries (fun m n => n = { m with exposed := n.exposed } ∧
    mode.Settles e m.exposed n.exposed) i.methods j.methods
  properties : AlikeEntries (fun p q => q = { p with exposed := q.exposed } ∧
    mode.Settles e p.exposed q.exposed) i.properties j.properties
  constructor : Option.Rel (fun c d => d = { c with exposed := d.exposed } ∧
    mode.Settles e c.exposed d.exposed) i.constructor j.constructor

variable {e}

/-- **An exposure with contexts settles every place of an interface.** -/
theorem resolved_expose (he : e.isEmpty = false) : i.Resolved mode e (i.expose mode e) where
  others := rfl
  exposed := mode.settles_apply he i.exposed
  constants := alikeEntries_map (fun c => ⟨rfl, mode.settles_apply he c.exposed⟩) i.constants
  methods := alikeEntries_map (fun m => ⟨rfl, mode.settles_apply he m.exposed⟩) i.methods
  properties := alikeEntries_map (fun p => ⟨rfl, mode.settles_apply he p.exposed⟩) i.properties
  constructor := by
    rw [expose]
    cases i.constructor with
    | none => exact .none
    | some c => exact .some ⟨rfl, mode.settles_apply he c.exposed⟩

variable {mode i}

/-- **Exposing twice is exposing once** wherever applying both exposures to a place is applying one. -/
theorem expose_expose {mode' mode'' : ExposureMode} {e' e'' : Exposure}
    (h : ∀ place, mode'.apply e' (mode.apply e place) = mode''.apply e'' place) :
    (i.expose mode e).expose mode' e' = i.expose mode'' e'' := by
  simp only [expose, map_entries_map_entries]
  simp only [Option.map_map, Function.comp_def, h]

theorem expose_inherit_expose (he : e.isEmpty = false) (later : Exposure) :
    (i.expose mode e).expose .inherit later = i.expose mode e :=
  expose_expose (mode.apply_inherit_apply he later)

theorem expose_force_expose (later : Exposure) :
    (i.expose mode e).expose .force later = i.expose .force later :=
  expose_expose fun _ => rfl

theorem resolveExposure_of_isEmpty (he : e.isEmpty = true) :
    i.resolveExposure mode e = .error (.emptyExposure i.name) := by
  rw [resolveExposure, if_pos he]

theorem resolveExposure_eq_ok_iff {j : Interface} :
    i.resolveExposure mode e = .ok j ↔ e.isEmpty = false ∧ i.expose mode e = j := by
  rw [resolveExposure]
  cases e.isEmpty <;> simp

/-! ## In place -/

/-- Exposes an interface in place, one kind of member after the other. Whether the exposure has contexts
is looked at before anything is changed. -/
def exposeInPlace (mode : ExposureMode) (e : Exposure) :
    ExceptT IntegrationError (StateM Interface) Unit := do
  if e.isEmpty then throw (.emptyExposure (← get).name)
  modify fun i => { i with exposed := mode.apply e i.exposed }
  modify fun i => { i with
    constants := i.constants.map (·.map fun _ c => { c with exposed := mode.apply e c.exposed }) }
  modify fun i => { i with
    methods := i.methods.map (·.map fun _ m => { m with exposed := mode.apply e m.exposed }) }
  modify fun i => { i with
    properties := i.properties.map (·.map fun _ p => { p with exposed := mode.apply e p.exposed }) }
  modify fun i => { i with
    constructor := i.constructor.map fun c => { c with exposed := mode.apply e c.exposed } }

/-- In place an interface becomes what resolving makes of it, and stays as it was where that fails. -/
theorem run_exposeInPlace (mode : ExposureMode) (e : Exposure) (i : Interface) :
    (exposeInPlace mode e).run i =
      (match i.resolveExposure mode e with
        | .ok j => (.ok (), j)
        | .error cause => (.error cause, i) : Except IntegrationError Unit × Interface) := by
  rw [exposeInPlace, resolveExposure]
  cases e.isEmpty <;> rfl

/-! ## Sequences -/

/-- Exposes an interface to one exposure after the other, each in its mode. -/
def resolveAll (steps : List (ExposureMode × Exposure)) (i : Interface) :
    Except IntegrationError Interface :=
  steps.foldlM (fun i step => i.resolveExposure step.1 step.2) i

/-- What all is forced to does not depend on what was applied before. -/
theorem resolveAll_force {steps : List (ExposureMode × Exposure)} {j : Interface}
    (h : i.resolveAll steps = .ok j) (e : Exposure) :
    j.resolveExposure .force e = i.resolveExposure .force e := by
  refine foldlM_keeps (P := fun k => k.resolveExposure .force e = i.resolveExposure .force e) ?_ rfl h
  intro step _ k l hk hl
  obtain ⟨-, rfl⟩ := resolveExposure_eq_ok_iff.1 hl
  rw [← hk, resolveExposure, resolveExposure, expose_force_expose]
  rfl

/-- Once exposures are inherited, further ones find nothing without contexts. -/
theorem resolveAll_inherit (he : e.isEmpty = false) :
    ∀ {later : List Exposure}, (∀ e' ∈ later, e'.isEmpty = false) →
      (i.expose .inherit e).resolveAll (later.map (.inherit, ·)) = .ok (i.expose .inherit e)
  | [], _ => rfl
  | e' :: later, hlater => by
    have hfirst : (i.expose .inherit e).resolveExposure .inherit e' = .ok (i.expose .inherit e) :=
      resolveExposure_eq_ok_iff.2
        ⟨hlater e' (List.mem_cons_self ..), expose_inherit_expose he e'⟩
    have hrest := resolveAll_inherit he fun e'' h => hlater e'' (List.mem_cons_of_mem e' h)
    rw [resolveAll, List.map_cons, foldlM_cons_eq_ok_iff]
    exact ⟨_, hfirst, hrest⟩

/-- **Resolving exposures.** An exposure without contexts is refused, and in place the interface is left
as it was. Any other succeeds, changes nothing but the exposures of the interface, its members and its
constructor, and leaves none of these without contexts. After exposures were inherited once, inheriting
any others changes nothing; and forcing gives the same whatever was applied before. -/
theorem resolveExposure_laws (i : Interface) (mode : ExposureMode) (e : Exposure) :
    (e.isEmpty = true → i.resolveExposure mode e = .error (.emptyExposure i.name) ∧
      (exposeInPlace mode e).run i = (.error (.emptyExposure i.name), i)) ∧
    (e.isEmpty = false → ∃ j, i.resolveExposure mode e = .ok j ∧
      (exposeInPlace mode e).run i = (.ok (), j) ∧ i.Resolved mode e j) ∧
    (∀ j, i.resolveExposure .inherit e = .ok j → ∀ later : List Exposure,
      (∀ e' ∈ later, e'.isEmpty = false) → j.resolveAll (later.map (.inherit, ·)) = .ok j) ∧
    ∀ earlier j, i.resolveAll earlier = .ok j →
      j.resolveExposure .force e = i.resolveExposure .force e := by
  refine ⟨fun he => ?_, fun he => ?_, ?_, fun _ _ h => resolveAll_force h e⟩
  · have hrefused : i.resolveExposure mode e = .error (.emptyExposure i.name) :=
      resolveExposure_of_isEmpty he
    exact ⟨hrefused, by rw [run_exposeInPlace, hrefused]⟩
  · have hdone : i.resolveExposure mode e = .ok (i.expose mode e) :=
      resolveExposure_eq_ok_iff.2 ⟨he, rfl⟩
    exact ⟨_, hdone, by rw [run_exposeInPlace, hdone], resolved_expose mode i he⟩
  · intro j h later hlater
    obtain ⟨he, rfl⟩ := resolveExposure_eq_ok_iff.1 h
    exact resolveAll_inherit he hlater

/-- An interface for which the exposure of one method is set, that of another is empty, and that of the
constructor is left out. -/
def dial : Interface where
  name := "Dial"
  methods := some (.ofList [
    ("ring", { name := "ring", exposed := some (.ofList ["Worker"]) }),
    ("turn", { name := "turn", exposed := some ∅ })])
  constructor := some {}

theorem dial_resolveExposure :
    (∅ : Exposure).isEmpty = true ∧ (Exposure.ofList ["Window"]).isEmpty = false ∧
      (exposeInPlace .inherit ∅).run dial = (.error (.emptyExposure "Dial"), dial) ∧
      ∃ j, dial.resolveExposure .inherit (.ofList ["Window"]) = .ok j ∧
        dial.Resolved .inherit (.ofList ["Window"]) j ∧
        j.resolveAll [(.inherit, .ofList ["Worker"])] = .ok j ∧
        j.resolveExposure .force (.ofList ["Worker"]) =
          dial.resolveExposure .force (.ofList ["Worker"]) := by
  have hempty : (∅ : Exposure).isEmpty = true := rfl
  have hwindow : (Exposure.ofList ["Window"]).isEmpty = false := by decide +kernel
  have hworker : ∀ e' ∈ [Exposure.ofList ["Worker"]], e'.isEmpty = false := by decide +kernel
  obtain ⟨hrefused, -, -, -⟩ := dial.resolveExposure_laws .inherit ∅
  obtain ⟨-, hdone, hinherit, -⟩ := dial.resolveExposure_laws .inherit (.ofList ["Window"])
  obtain ⟨-, -, -, hforce⟩ := dial.resolveExposure_laws .force (.ofList ["Worker"])
  obtain ⟨j, hj, -, hresolved⟩ := hdone hwindow
  have hbefore : dial.resolveAll [(.inherit, .ofList ["Window"])] = .ok j :=
    foldlM_cons_eq_ok_iff.2 ⟨j, hj, rfl⟩
  exact ⟨hempty, hwindow, (hrefused hempty).2, j, hj, hresolved,
    hinherit j hj [.ofList ["Worker"]] hworker, hforce _ j hbefore⟩

end Interface

end IdlDecls
