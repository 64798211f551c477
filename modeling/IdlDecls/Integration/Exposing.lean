import IdlDecls.Integration.Failure

/-!
# Exposing interfaces and their members

An exposure is applied to an interface together with its constants, methods, properties and
constructor, either to fill the places that have none (`inherit`) or to replace all of them
(`force`). An empty exposure counts as none. Seen from outside, a member without an exposure of its
own has that of its interface.
-/

namespace IdlDecls

/-- How an exposure is applied. -/
inductive ExposureMode where
  /-- Only where there is none. -/
  | inherit
  /-- Everywhere. -/
  | force
deriving DecidableEq, Repr

/-- The exposure of a place after another is applied to it (`assign`). -/
def ExposureMode.apply (mode : ExposureMode) (exposure : Exposure) (place : Option Exposure) :
    Option Exposure :=
  match mode with
  | .force => some exposure
  | .inherit => (Exposure.nonempty? place).or (some exposure)

/-- An interface with an exposure applied to it and to everything that it holds (`resolve_exposure`,
behind its check). -/
def Interface.expose (mode : ExposureMode) (exposure : Exposure) (i : Interface) : Interface :=
  { i with
    exposed := mode.apply exposure i.exposed
    constants := i.constants.map
      (·.map fun _ c => { c with exposed := mode.apply exposure c.exposed })
    methods := i.methods.map
      (·.map fun _ m => { m with exposed := mode.apply exposure m.exposed })
    properties := i.properties.map
      (·.map fun _ p => { p with exposed := mode.apply exposure p.exposed })
    constructor := i.constructor.map
      fun c => { c with exposed := mode.apply exposure c.exposed } }

/-- Exposes an interface; an empty exposure is refused (`resolve_exposure`). -/
def Interface.resolveExposure (mode : ExposureMode) (exposure : Exposure) (i : Interface) :
    Except IntegrationError Interface :=
  if exposure.isEmpty then .error (.emptyExposure i.name) else .ok (i.expose mode exposure)

/-- The exposure that a member is seen under: its own, else that of its interface
(`effective_exposure`). -/
def effectiveExposure (own parent : Option Exposure) : Option Exposure :=
  (Exposure.nonempty? own).or (Exposure.nonempty? parent)

/-- An interface with the exposure that overrides its own (in `apply_exposure_overrides`). -/
def Interface.applyOverride (i : Interface) : Interface :=
  match i.overrideExposed with
  | none => i
  | some exposure => i.expose .force exposure

/-- Applies every overriding exposure to its interface and counts them (`apply_exposure_overrides`).
The first that is empty is refused. -/
def Graph.applyExposureOverrides (g : Graph) : Except IntegrationError (Graph × Nat) :=
  let interfaces := valuesOf g.interfaces
  match interfaces.find? fun i => i.overrideExposed.any (·.isEmpty) with
  | some i => .error (.emptyExposure i.name)
  | none =>
    .ok ({ g with interfaces := g.interfaces.map (·.map fun _ i => i.applyOverride) },
      interfaces.countP (·.overrideExposed.isSome))

end IdlDecls
