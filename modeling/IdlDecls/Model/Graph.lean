import IdlDecls.Json.Basic
import IdlDecls.Keyed.Basic
import IdlDecls.Model.Exposure
import IdlDecls.Model.TypeRef

/-!
# The interface graph

Definitions of Web IDL as the data files hold them: interfaces, mixins, callback interfaces and
namespaces share one shape, and dictionaries, enumerations, callback functions and type definitions
have their own. A collection that is left out differs from an empty one. Whatever a definition holds
beyond its fields stays in `extra`, untouched by everything but merging and pruning.
-/

namespace IdlDecls

/-- Fields without a meaning of their own here. -/
abbrev Extra := Keyed Json

/-! ## Signatures -/

/-- A parameter. -/
structure Param where
  name : String := ""
  type : TypeRef := .unspecified
  optional : Option Bool := none
  variadic : Option Bool := none
  extra : Extra := ∅
deriving DecidableEq, Inhabited

/-- One overload of an operation: its parameters and its result type. -/
structure Signature where
  type : TypeRef := .unspecified
  params : List Param := []
  deprecated : Option Bool := none
  extra : Extra := ∅
deriving DecidableEq, Inhabited

/-! ## Members of interfaces -/

/-- A constant. -/
structure Constant where
  name : String := ""
  type : TypeRef := .unspecified
  value : Option Json := none
  comment : Option String := none
  exposed : Option Exposure := none
  extra : Extra := ∅
deriving DecidableEq, Inhabited

/-- An operation; its overloads differ by signature. -/
structure Method where
  name : String := ""
  signatures : List Signature := []
  isStatic : Option Bool := none
  comment : Option String := none
  exposed : Option Exposure := none
  deprecated : Option Bool := none
  extra : Extra := ∅
deriving DecidableEq, Inhabited

/-- An attribute. -/
structure Property where
  name : String := ""
  type : TypeRef := .unspecified
  readOnly : Option Bool := none
  isStatic : Option Bool := none
  comment : Option String := none
  exposed : Option Exposure := none
  deprecated : Option Bool := none
  extra : Extra := ∅
deriving DecidableEq, Inhabited

/-- The constructor of an interface with its overloads. -/
structure Constructor where
  signatures : List Signature := []
  comment : Option String := none
  exposed : Option Exposure := none
  extra : Extra := ∅
deriving DecidableEq, Inhabited

/-- An iterable, map-like or set-like declaration. -/
structure IteratorDecl where
  kind : String := ""
  types : List TypeRef := []
  readOnly : Option Bool := none
  extra : Extra := ∅
deriving DecidableEq, Inhabited

/-! ## Definitions -/

/-- An interface, a mixin, a callback interface or a namespace. -/
structure Interface where
  name : String := ""
  /-- The interface that this one extends. -/
  parent : Option String := none
  comment : Option String := none
  constants : Option (Keyed Constant) := none
  methods : Option (Keyed Method) := none
  properties : Option (Keyed Property) := none
  constructor : Option Constructor := none
  /-- The contexts that see the interface; absent means unspecified. -/
  exposed : Option Exposure := none
  /-- Replaces the exposure of the interface and its members at the end of an integration. -/
  overrideExposed : Option Exposure := none
  /-- The mixins that the interface includes. -/
  implements : Option (List String) := none
  iterator : Option IteratorDecl := none
  deprecated : Option Bool := none
  extra : Extra := ∅
deriving DecidableEq, Inhabited

/-- A member of a dictionary. -/
structure Member where
  name : String := ""
  type : TypeRef := .unspecified
  required : Option Bool := none
  default : Option Json := none
  comment : Option String := none
  extra : Extra := ∅
deriving DecidableEq, Inhabited

/-- A dictionary. -/
structure Dictionary where
  name : String := ""
  /-- The dictionary that this one extends. -/
  parent : Option String := none
  comment : Option String := none
  members : Option (Keyed Member) := none
  extra : Extra := ∅
deriving DecidableEq, Inhabited

/-- An enumeration of strings. -/
structure Enumeration where
  name : String := ""
  values : List String := []
  comment : Option String := none
  extra : Extra := ∅
deriving DecidableEq, Inhabited

/-- A callback function with its overloads. -/
structure CallbackFunction where
  name : String := ""
  signatures : List Signature := []
  comment : Option String := none
  extra : Extra := ∅
deriving DecidableEq, Inhabited

/-- A new name for a type. -/
structure Typedef where
  name : String := ""
  type : TypeRef := .unspecified
  comment : Option String := none
  extra : Extra := ∅
deriving DecidableEq, Inhabited

/-! ## The graph -/

/-- All definitions (`WebIdl`). Namespaces and type definitions are lists whose items are told apart
by their names; the other collections are keyed. -/
structure Graph where
  callbackFunctions : Option (Keyed CallbackFunction) := none
  callbackInterfaces : Option (Keyed Interface) := none
  dictionaries : Option (Keyed Dictionary) := none
  enums : Option (Keyed Enumeration) := none
  interfaces : Option (Keyed Interface) := none
  mixins : Option (Keyed Interface) := none
  typedefs : Option (List Typedef) := none
  namespaces : Option (List Interface) := none
  extra : Extra := ∅
deriving DecidableEq, Inhabited

/-! ## Looking up -/

/-- The value with a name in a collection that may be left out. -/
def lookup? {α : Type} (collection : Option (Keyed α)) (name : String) : Option α :=
  collection.bind (·.get? name)

/-- The values of a collection that may be left out, in the order of their names. -/
def valuesOf {α : Type} (collection : Option (Keyed α)) : List α :=
  match collection with
  | none => []
  | some entries => entries.values

namespace Interface

/-- The method with a name (`method`). -/
def method? (i : Interface) (name : String) : Option Method := lookup? i.methods name

/-- The property with a name (`property`). -/
def property? (i : Interface) (name : String) : Option Property := lookup? i.properties name

/-- The constant with a name (`constant`). -/
def constant? (i : Interface) (name : String) : Option Constant := lookup? i.constants name

/-- Whether the interface is marked as deprecated (`is_deprecated`). -/
def isDeprecated (i : Interface) : Bool := i.deprecated.getD false

end Interface

namespace Graph

instance : EmptyCollection Graph := ⟨{}⟩

/-- The interface with a name (`interface`). -/
def interface? (g : Graph) (name : String) : Option Interface := lookup? g.interfaces name

/-- The mixin with a name (`mixin`). -/
def mixin? (g : Graph) (name : String) : Option Interface := lookup? g.mixins name

/-- The dictionary with a name (`dictionary`). -/
def dictionary? (g : Graph) (name : String) : Option Dictionary := lookup? g.dictionaries name

/-- The enumeration with a name (`enumeration`). -/
def enum? (g : Graph) (name : String) : Option Enumeration := lookup? g.enums name

/-- The first type definition with a name (`typedef`). -/
def typedef? (g : Graph) (name : String) : Option Typedef :=
  (g.typedefs.getD []).find? (·.name = name)

end Graph

end IdlDecls
