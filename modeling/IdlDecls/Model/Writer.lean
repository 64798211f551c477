import IdlDecls.Model.Graph

/-!
# Writing definitions

Each type has one list of fields, in the order of its declaration: what is absent and what is an
empty list of signatures or parameters is left out, and the extra fields come last. A `Layout` makes
an object of such a list: `Layout.declared` keeps the order, `Layout.ascending` sorts the keys, which
gives a canonical value. A collection is an object with one field that holds its entries.
-/

namespace IdlDecls

/-- Makes an object of its fields in declared order. -/
abbrev Layout := List (String × Json) → Json

/-- The fields stay in their declared order. -/
def Layout.declared : Layout := .obj

/-- The fields are sorted by key. -/
def Layout.ascending : Layout := fun fields => .obj (Entries.sorted fields)

namespace Write

/-! ## Fields -/

variable {α : Type}

/-- A field that is left out when absent. -/
def given (key : String) (write : α → Json) : Option α → List (String × Json)
  | none => []
  | some value => [(key, write value)]

/-- A field with a list that is left out when empty. -/
def nonempty (key : String) (write : α → Json) (values : List α) : List (String × Json) :=
  if values.isEmpty then [] else [(key, .arr (values.map write))]

/-- A collection: an object whose one field holds the entries. -/
def collection (layout : Layout) (key : String) (write : α → Json) (entries : Keyed α) : Json :=
  layout [(key, .obj (entries.entries.map fun e => (e.1, write e.2)))]

/-- An exposure in its written form (`serialize`). -/
def exposure (e : Exposure) : Json := .str e.text

end Write

open Write

/-! ## Type references -/

mutual

/-- The fields of a type reference. -/
def TypeRef.fields (layout : Layout) : TypeRef → List (String × Json)
  | .mk head arguments nullable =>
    (match head with
      | none => []
      | some head => [("type", head.toJson layout)]) ++
    (match arguments with
      | none => []
      | some arguments => [("subtype", arguments.toJson layout)]) ++
    given "nullable" .bool nullable

/-- A name, or the list of a union's members. -/
def TypeHead.toJson (layout : Layout) : TypeHead → Json
  | .named name => .str name
  | .union members => .arr (TypeRef.listToJson layout members)

/-- Generic arguments: a list, or one reference. -/
def TypeArguments.toJson (layout : Layout) : TypeArguments → Json
  | .many types => .arr (TypeRef.listToJson layout types)
  | .one type => layout (type.fields layout)

/-- References one by one. -/
def TypeRef.listToJson (layout : Layout) : List TypeRef → List Json
  | [] => []
  | t :: rest => layout (t.fields layout) :: TypeRef.listToJson layout rest

end

/-- A type reference that stands on its own. -/
def TypeRef.toJson (layout : Layout) (t : TypeRef) : Json :=
  layout (t.fields layout)

/-! ## Members -/

def Param.toJson (layout : Layout) (p : Param) : Json :=
  layout <| [("name", .str p.name)] ++ p.type.fields layout ++ given "optional" .bool p.optional ++
    given "variadic" .bool p.variadic ++ p.extra.entries

def Signature.toJson (layout : Layout) (s : Signature) : Json :=
  layout <| s.type.fields layout ++ nonempty "param" (Param.toJson layout) s.params ++
    given "deprecated" .bool s.deprecated ++ s.extra.entries

def Constant.toJson (layout : Layout) (c : Constant) : Json :=
  layout <| [("name", .str c.name)] ++ c.type.fields layout ++ given "value" id c.value ++
    given "comment" .str c.comment ++ given "exposed" exposure c.exposed ++ c.extra.entries

def Method.toJson (layout : Layout) (m : Method) : Json :=
  layout <| [("name", .str m.name)] ++
    nonempty "signature" (Signature.toJson layout) m.signatures ++
    given "static" .bool m.isStatic ++ given "comment" .str m.comment ++
    given "exposed" exposure m.exposed ++ given "deprecated" .bool m.deprecated ++ m.extra.entries

def Property.toJson (layout : Layout) (p : Property) : Json :=
  layout <| [("name", .str p.name)] ++ p.type.fields layout ++
    given "read-only" .bool p.readOnly ++ given "static" .bool p.isStatic ++
    given "comment" .str p.comment ++ given "exposed" exposure p.exposed ++
    given "deprecated" .bool p.deprecated ++ p.extra.entries

def Constructor.toJson (layout : Layout) (c : Constructor) : Json :=
  layout <| nonempty "signature" (Signature.toJson layout) c.signatures ++
    given "comment" .str c.comment ++ given "exposed" exposure c.exposed ++ c.extra.entries

def IteratorDecl.toJson (layout : Layout) (i : IteratorDecl) : Json :=
  layout <| [("kind", .str i.kind), ("type", .arr (i.types.map (TypeRef.toJson layout)))] ++
    given "readonly" .bool i.readOnly ++ i.extra.entries

def Member.toJson (layout : Layout) (m : Member) : Json :=
  layout <| [("name", .str m.name)] ++ m.type.fields layout ++ given "required" .bool m.required ++
    given "default" id m.default ++ given "comment" .str m.comment ++ m.extra.entries

/-! ## Definitions -/

def Interface.toJson (layout : Layout) (i : Interface) : Json :=
  layout <| [("name", .str i.name)] ++ given "extends" .str i.parent ++
    given "comment" .str i.comment ++
    given "constants" (collection layout "constant" (Constant.toJson layout)) i.constants ++
    given "methods" (collection layout "method" (Method.toJson layout)) i.methods ++
    given "properties" (collection layout "property" (Property.toJson layout)) i.properties ++
    given "constructor" (Constructor.toJson layout) i.constructor ++
    given "exposed" exposure i.exposed ++
    given "override-exposed" exposure i.overrideExposed ++
    given "implements" (fun names => .arr (names.map .str)) i.implements ++
    given "iterator" (IteratorDecl.toJson layout) i.iterator ++
    given "deprecated" .bool i.deprecated ++ i.extra.entries

def Dictionary.toJson (layout : Layout) (d : Dictionary) : Json :=
  layout <| [("name", .str d.name)] ++ given "extends" .str d.parent ++
    given "comment" .str d.comment ++
    given "members" (collection layout "member" (Member.toJson layout)) d.members ++
    d.extra.entries

def Enumeration.toJson (layout : Layout) (e : Enumeration) : Json :=
  layout <| [("name", .str e.name), ("value", .arr (e.values.map .str))] ++
    given "comment" .str e.comment ++ e.extra.entries

def CallbackFunction.toJson (layout : Layout) (f : CallbackFunction) : Json :=
  layout <| [("name", .str f.name)] ++
    nonempty "signature" (Signature.toJson layout) f.signatures ++
    given "comment" .str f.comment ++ f.extra.entries

def Typedef.toJson (layout : Layout) (t : Typedef) : Json :=
  layout <| [("new-type", .str t.name)] ++ t.type.fields layout ++ given "comment" .str t.comment ++
    t.extra.entries

/-- The type definitions, in an object as collections are. -/
def typedefsToJson (layout : Layout) (typedefs : List Typedef) : Json :=
  layout [("typedef", .arr (typedefs.map (Typedef.toJson layout)))]

def Graph.toJson (layout : Layout) (g : Graph) : Json :=
  layout <|
    given "callback-functions"
      (collection layout "callback-function" (CallbackFunction.toJson layout))
      g.callbackFunctions ++
    given "callback-interfaces" (collection layout "interface" (Interface.toJson layout))
      g.callbackInterfaces ++
    given "dictionaries" (collection layout "dictionary" (Dictionary.toJson layout))
      g.dictionaries ++
    given "enums" (collection layout "enum" (Enumeration.toJson layout)) g.enums ++
    given "interfaces" (collection layout "interface" (Interface.toJson layout)) g.interfaces ++
    given "mixins" (collection layout "mixin" (Interface.toJson layout)) g.mixins ++
    given "typedefs" (typedefsToJson layout) g.typedefs ++
    given "namespaces" (fun items => .arr (items.map (Interface.toJson layout))) g.namespaces ++
    g.extra.entries

/-- The canonical value of a graph. -/
def Graph.toValue (g : Graph) : Json :=
  g.toJson Layout.ascending

end IdlDecls
