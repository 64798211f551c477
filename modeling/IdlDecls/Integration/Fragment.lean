import IdlDecls.Model.Reader
import IdlDecls.Model.Writer

/-!
# Fragments

A fragment is what one specification contributes: definitions of its own, partial definitions that
extend those of others, and includes statements. The interfaces of a deprecated fragment, and their
methods and properties, are marked as deprecated before anything is merged.
-/

namespace IdlDecls

/-- The statement that an interface includes a mixin. -/
structure Include where
  /-- The interface. -/
  target : String
  /-- The mixin. -/
  includes : String
deriving DecidableEq, Inhabited

/-- What one specification contributes. -/
structure Fragment where
  title : String := ""
  deprecated : Bool := false
  /-- The complete definitions. -/
  definitions : Graph := ∅
  partialInterfaces : List Interface := []
  partialMixins : List Interface := []
  partialDictionaries : List Dictionary := []
  includes : List Include := []
deriving DecidableEq, Inhabited

/-! ## Reading and writing -/

open Read in
/-- An includes statement. -/
def Include.ofJson : Json → Reading Include :=
  record ["target", "includes"] fun fields => do
    let includes ← required text fields "includes"
    let target ← required text fields "target"
    pure { target, includes }

/-- Fills the names of everything that stands under a key; partial definitions stand under none (in
`from_value`). -/
def Fragment.fillNames (f : Fragment) : Fragment :=
  { f with
    definitions := f.definitions.fillNames
    partialInterfaces := f.partialInterfaces.map Interface.fillMemberNames
    partialMixins := f.partialMixins.map Interface.fillMemberNames
    partialDictionaries := f.partialDictionaries.map Dictionary.fillMemberNames }

open Read in
/-- A fragment from the fields of an object, which are met in the order of their keys. -/
def Fragment.ofFields (fields : List (String × Json)) : Reading Fragment := do
  let definitions ← orElse ∅ Graph.ofRawJson fields "browser"
  let deprecated ← orElse false bool fields "deprecated"
  let includes ← orElse [] (list Include.ofJson) fields "includes"
  let partialDictionaries ← orElse [] (list Dictionary.ofJson) fields "partialDictionaries"
  let partialInterfaces ← orElse [] (list Interface.ofJson) fields "partialInterfaces"
  let partialMixins ← orElse [] (list Interface.ofJson) fields "partialMixins"
  let title ← orElse "" text fields "title"
  pure { title, deprecated, definitions, partialInterfaces, partialMixins, partialDictionaries,
         includes }

open Read in
/-- A fragment from the items of an array, which are met in declared order. -/
def Fragment.ofItems (fields : List (String × Json)) : Reading Fragment := do
  let title ← orElse "" text fields "title"
  let deprecated ← orElse false bool fields "deprecated"
  let definitions ← orElse ∅ Graph.ofRawJson fields "browser"
  let partialInterfaces ← orElse [] (list Interface.ofJson) fields "partialInterfaces"
  let partialMixins ← orElse [] (list Interface.ofJson) fields "partialMixins"
  let partialDictionaries ← orElse [] (list Dictionary.ofJson) fields "partialDictionaries"
  let includes ← orElse [] (list Include.ofJson) fields "includes"
  pure { title, deprecated, definitions, partialInterfaces, partialMixins, partialDictionaries,
         includes }

/-- The keys of a fragment in declared order. -/
def Fragment.keys : List String :=
  ["title", "deprecated", "browser", "partialInterfaces", "partialMixins", "partialDictionaries",
    "includes"]

/-- A fragment with the names filled in from the keys (`from_value`). -/
def Fragment.ofJson : Json → Reading Fragment
  | .obj fields => Fragment.fillNames <$> Fragment.ofFields fields
  | j => Fragment.fillNames <$> Read.record Fragment.keys Fragment.ofItems j

def Include.toJson (layout : Layout) (i : Include) : Json :=
  layout [("target", .str i.target), ("includes", .str i.includes)]

def Fragment.toJson (layout : Layout) (f : Fragment) : Json :=
  layout [("title", .str f.title), ("deprecated", .bool f.deprecated),
    ("browser", f.definitions.toJson layout),
    ("partialInterfaces", .arr (f.partialInterfaces.map (Interface.toJson layout))),
    ("partialMixins", .arr (f.partialMixins.map (Interface.toJson layout))),
    ("partialDictionaries", .arr (f.partialDictionaries.map (Dictionary.toJson layout))),
    ("includes", .arr (f.includes.map (Include.toJson layout)))]

/-! ## Deprecated fragments -/

/-- An interface marked as deprecated with its methods and properties (`mark_deprecated`). -/
def Interface.markDeprecated (i : Interface) : Interface :=
  { i with
    deprecated := some true
    methods := i.methods.map (·.map fun _ m => { m with deprecated := some true })
    properties := i.properties.map (·.map fun _ p => { p with deprecated := some true }) }

/-- A fragment with its interfaces, partial interfaces and partial mixins marked, if it is
deprecated (`stamp_deprecated`). -/
def Fragment.stampDeprecated (f : Fragment) : Fragment :=
  if f.deprecated then
    { f with
      definitions := { f.definitions with
        interfaces := f.definitions.interfaces.map (·.map fun _ i => i.markDeprecated) }
      partialInterfaces := f.partialInterfaces.map Interface.markDeprecated
      partialMixins := f.partialMixins.map Interface.markDeprecated }
  else f

end IdlDecls
