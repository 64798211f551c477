import IdlDecls.Model.Names

/-!
# Reading definitions

Each type reads from an object. A field that is absent or null is absent where it is optional; the
name, the lists and the entries of a collection have a default when absent but may not be null.
A flag is a truth value or a whole number of the signed 64-bit range, zero being false. Keys without
a meaning go to the extra fields. Type references and collections, which have no extra fields, read
from an array as well: the items are the fields in declared order.

The fields of an object are met in ascending order of keys, the type reference that shares the object
last, and the first failure is reported. Two causes are told apart: an exposure that is neither a
text nor a list of texts, and anything else.
-/

namespace IdlDecls

/-- Why a value cannot be read. -/
inductive ReadError where
  /-- An exposure is neither a text nor a list of texts. -/
  | exposure
  /-- Anything else. -/
  | malformed
deriving DecidableEq, Repr

/-- The result of reading. -/
abbrev Reading := Except ReadError

namespace Read

variable {α : Type}

/-! ## Values -/

/-- A text. -/
def text : Json → Reading String
  | .str s => pure s
  | _ => throw .malformed

/-- A truth value. -/
def bool : Json → Reading Bool
  | .bool b => pure b
  | _ => throw .malformed

/-- A flag; null is an absent one (`flag`). -/
def flag? : Json → Option (Option Bool)
  | .null => some none
  | .bool b => some (some b)
  | .num (.int n) => if Number.isSigned n then some (some (n ≠ 0)) else none
  | _ => none

/-- A list. -/
def list (read : Json → Reading α) : Json → Reading (List α)
  | .arr items => items.mapM read
  | _ => throw .malformed

/-- The entries of an object. -/
def keyed (read : Json → Reading α) : Json → Reading (Keyed α)
  | .obj fields => Keyed.ofList <$> fields.mapM fun field => (field.1, ·) <$> read field.2
  | _ => throw .malformed

/-- An exposure (`deserialize`). -/
def exposure : Json → Reading Exposure
  | .str s => pure (.ofText s)
  | .arr items =>
    match items.mapM text with
    | .ok contexts => pure (.ofList contexts)
    | .error _ => throw .exposure
  | _ => throw .exposure

/-! ## Fields -/

/-- The fields of an object. -/
def fields : Json → Reading (List (String × Json))
  | .obj fields => pure fields
  | _ => throw .malformed

/-- A record: the fields of an object, or of an array that lists them in the order of `keys`. Surplus
items are refused after the fields have been read. -/
def record (keys : List String) (read : List (String × Json) → Reading α) : Json → Reading α
  | .obj fields => read fields
  | .arr items => do
    let value ← read (keys.zip items)
    if items.length ≤ keys.length then pure value else throw .malformed
  | _ => throw .malformed

/-- A record whose object has none of the keys twice. -/
def distinctRecord (keys : List String) (read : List (String × Json) → Reading α) :
    Json → Reading α :=
  record keys fun fields =>
    if ((fields.map (·.1)).filter keys.contains).Nodup then read fields else throw .malformed

/-- A field that may be absent or null. -/
def optional (read : Json → Reading α) (fields : List (String × Json)) (key : String) :
    Reading (Option α) :=
  match Entries.get? fields key with
  | none => pure none
  | some .null => pure none
  | some value => some <$> read value

/-- A field with a default when absent. -/
def orElse (default : α) (read : Json → Reading α) (fields : List (String × Json))
    (key : String) : Reading α :=
  match Entries.get? fields key with
  | none => pure default
  | some value => read value

/-- A field that must be there. -/
def required (read : Json → Reading α) (fields : List (String × Json)) (key : String) : Reading α :=
  match Entries.get? fields key with
  | none => throw .malformed
  | some value => read value

/-- A flag. -/
def flag (fields : List (String × Json)) (key : String) : Reading (Option Bool) :=
  match Entries.get? fields key with
  | none => pure none
  | some value =>
    match flag? value with
    | some b => pure b
    | none => throw .malformed

/-- The fields whose keys have no meaning. -/
def rest (known : List String) (fields : List (String × Json)) : Extra :=
  .ofList (fields.filter fun field => !known.contains field.1)

/-- A collection: a record whose one field holds the entries. -/
def collection (key : String) (read : Json → Reading α) : Json → Reading (Keyed α) :=
  record [key] fun fields => orElse ∅ (keyed read) fields key

end Read

open Read

/-! ## Type references -/

/-- A type reference of its parts, if all of them can be read. -/
def TypeRef.ofParts? (head : Option (Option TypeHead)) (arguments : Option (Option TypeArguments))
    (nullable : Option (Option Bool)) : Option TypeRef := do
  pure ⟨← head, ← arguments, ← nullable⟩

mutual

/-- A type reference that stands on its own: an object, or the array of its fields. -/
def TypeRef.ofJson? : Json → Option TypeRef
  | .obj fields =>
    TypeRef.ofParts? (TypeHead.inFields? fields) (TypeArguments.inFields? fields)
      (flag fields "nullable").toOption
  | .arr items => TypeRef.ofItems? items
  | _ => none

/-- A type reference from its fields in declared order. -/
def TypeRef.ofItems? : List Json → Option TypeRef
  | [] => some .unspecified
  | [type] => TypeRef.ofParts? (TypeHead.ofJson? type) (some none) (some none)
  | [type, subtype] =>
    TypeRef.ofParts? (TypeHead.ofJson? type) (TypeArguments.ofJson? subtype) (some none)
  | [type, subtype, nullable] =>
    TypeRef.ofParts? (TypeHead.ofJson? type) (TypeArguments.ofJson? subtype) (flag? nullable)
  | _ => none

/-- The head among the fields. -/
def TypeHead.inFields? : List (String × Json) → Option (Option TypeHead)
  | [] => some none
  | (key, value) :: rest =>
    if key = "type" then TypeHead.ofJson? value else TypeHead.inFields? rest

/-- The arguments among the fields. -/
def TypeArguments.inFields? : List (String × Json) → Option (Option TypeArguments)
  | [] => some none
  | (key, value) :: rest =>
    if key = "subtype" then TypeArguments.ofJson? value else TypeArguments.inFields? rest

/-- A head: a name, or the members of a union. -/
def TypeHead.ofJson? : Json → Option (Option TypeHead)
  | .null => some none
  | .str name => some (some (.named name))
  | .arr members => (TypeRef.listOfJson? members).map fun members => some (.union members)
  | _ => none

/-- Arguments: a list of references if the value is one, else one reference. -/
def TypeArguments.ofJson? : Json → Option (Option TypeArguments)
  | .null => some none
  | .arr items =>
    match TypeRef.listOfJson? items with
    | some types => some (some (.many types))
    | none => (TypeRef.ofItems? items).map fun type => some (.one type)
  | .obj fields =>
    (TypeRef.ofParts? (TypeHead.inFields? fields) (TypeArguments.inFields? fields)
      (flag fields "nullable").toOption).map fun type => some (.one type)
  | _ => none

/-- References one by one. -/
def TypeRef.listOfJson? : List Json → Option (List TypeRef)
  | [] => some []
  | j :: rest => (TypeRef.ofJson? j).bind fun t => (TypeRef.listOfJson? rest).map (t :: ·)

end

/-- A type reference from the fields that it shares with others. -/
def TypeRef.ofFields? (fields : List (String × Json)) : Option TypeRef :=
  TypeRef.ofJson? (.obj fields)

/-- A value where one was found, a failure where not. -/
def Read.found {α : Type} : Option α → Reading α
  | some value => pure value
  | none => throw .malformed

/-- The keys that a type reference takes from the object that it shares. -/
def TypeRef.keys : List String := ["type", "subtype", "nullable"]

def TypeRef.ofJson (j : Json) : Reading TypeRef :=
  found (TypeRef.ofJson? j)

/-- A type reference from the fields that it shares with others. -/
def TypeRef.ofFields (fields : List (String × Json)) : Reading TypeRef :=
  found (TypeRef.ofFields? fields)

/-! ## Members -/

def Param.ofJson (j : Json) : Reading Param := do
  let fields ← fields j
  let name ← orElse "" Read.text fields "name"
  let optional ← flag fields "optional"
  let variadic ← flag fields "variadic"
  let type ← TypeRef.ofFields fields
  let extra := rest (["name", "optional", "variadic"] ++ TypeRef.keys) fields
  pure { name, type, optional, variadic, extra }

def Signature.ofJson (j : Json) : Reading Signature := do
  let fields ← fields j
  let deprecated ← flag fields "deprecated"
  let params ← orElse [] (list Param.ofJson) fields "param"
  let type ← TypeRef.ofFields fields
  let extra := rest (["param", "deprecated"] ++ TypeRef.keys) fields
  pure { type, params, deprecated, extra }

def Constant.ofJson (j : Json) : Reading Constant := do
  let fields ← fields j
  let comment ← optional text fields "comment"
  let exposed ← optional exposure fields "exposed"
  let name ← orElse "" text fields "name"
  let value ← optional pure fields "value"
  let type ← TypeRef.ofFields fields
  let extra := rest (["name", "value", "comment", "exposed"] ++ TypeRef.keys) fields
  pure { name, type, value, comment, exposed, extra }

def Method.ofJson (j : Json) : Reading Method := do
  let fields ← fields j
  let comment ← optional text fields "comment"
  let deprecated ← flag fields "deprecated"
  let exposed ← optional exposure fields "exposed"
  let name ← orElse "" text fields "name"
  let signatures ← orElse [] (list Signature.ofJson) fields "signature"
  let isStatic ← flag fields "static"
  let extra := rest ["name", "signature", "static", "comment", "exposed", "deprecated"] fields
  pure { name, signatures, isStatic, comment, exposed, deprecated, extra }

def Property.ofJson (j : Json) : Reading Property := do
  let fields ← fields j
  let comment ← optional text fields "comment"
  let deprecated ← flag fields "deprecated"
  let exposed ← optional exposure fields "exposed"
  let name ← orElse "" text fields "name"
  let readOnly ← flag fields "read-only"
  let isStatic ← flag fields "static"
  let type ← TypeRef.ofFields fields
  let extra := rest
    (["name", "read-only", "static", "comment", "exposed", "deprecated"] ++ TypeRef.keys) fields
  pure { name, type, readOnly, isStatic, comment, exposed, deprecated, extra }

def Constructor.ofJson (j : Json) : Reading Constructor := do
  let fields ← fields j
  let comment ← optional text fields "comment"
  let exposed ← optional exposure fields "exposed"
  let signatures ← orElse [] (list Signature.ofJson) fields "signature"
  let extra := rest ["signature", "comment", "exposed"] fields
  pure { signatures, comment, exposed, extra }

def IteratorDecl.ofJson (j : Json) : Reading IteratorDecl := do
  let fields ← fields j
  let kind ← required text fields "kind"
  let readOnly ← flag fields "readonly"
  let types ← orElse [] (list TypeRef.ofJson) fields "type"
  let extra := rest ["kind", "type", "readonly"] fields
  pure { kind, types, readOnly, extra }

def Member.ofJson (j : Json) : Reading Member := do
  let fields ← fields j
  let comment ← optional text fields "comment"
  let default ← optional pure fields "default"
  let name ← orElse "" text fields "name"
  let required ← flag fields "required"
  let type ← TypeRef.ofFields fields
  let extra := rest (["name", "required", "default", "comment"] ++ TypeRef.keys) fields
  pure { name, type, required, default, comment, extra }

/-! ## Definitions -/

/-- An interface, a mixin, a callback interface or a namespace. -/
def Interface.ofJson (j : Json) : Reading Interface := do
  let fields ← fields j
  let comment ← optional text fields "comment"
  let constants ← optional (collection "constant" Constant.ofJson) fields "constants"
  let constructor ← optional Constructor.ofJson fields "constructor"
  let deprecated ← flag fields "deprecated"
  let exposed ← optional exposure fields "exposed"
  let parent ← optional text fields "extends"
  let implements ← optional (list text) fields "implements"
  let iterator ← optional IteratorDecl.ofJson fields "iterator"
  let methods ← optional (collection "method" Method.ofJson) fields "methods"
  let name ← orElse "" text fields "name"
  let overrideExposed ← optional exposure fields "override-exposed"
  let properties ← optional (collection "property" Property.ofJson) fields "properties"
  let extra := rest ["name", "extends", "comment", "constants", "methods", "properties",
    "constructor", "exposed", "override-exposed", "implements", "iterator", "deprecated"] fields
  pure { name, parent, comment, constants, methods, properties, constructor, exposed,
         overrideExposed, implements, iterator, deprecated, extra }

def Dictionary.ofJson (j : Json) : Reading Dictionary := do
  let fields ← fields j
  let comment ← optional text fields "comment"
  let parent ← optional text fields "extends"
  let members ← optional (collection "member" Member.ofJson) fields "members"
  let name ← orElse "" text fields "name"
  let extra := rest ["name", "extends", "comment", "members"] fields
  pure { name, parent, comment, members, extra }

def Enumeration.ofJson (j : Json) : Reading Enumeration := do
  let fields ← fields j
  let comment ← optional text fields "comment"
  let name ← orElse "" text fields "name"
  let values ← orElse [] (list text) fields "value"
  let extra := rest ["name", "value", "comment"] fields
  pure { name, values, comment, extra }

def CallbackFunction.ofJson (j : Json) : Reading CallbackFunction := do
  let fields ← fields j
  let comment ← optional text fields "comment"
  let name ← orElse "" text fields "name"
  let signatures ← orElse [] (list Signature.ofJson) fields "signature"
  let extra := rest ["name", "signature", "comment"] fields
  pure { name, signatures, comment, extra }

def Typedef.ofJson (j : Json) : Reading Typedef := do
  let fields ← fields j
  let comment ← optional text fields "comment"
  let name ← orElse "" text fields "new-type"
  let type ← TypeRef.ofFields fields
  let extra := rest (["new-type", "comment"] ++ TypeRef.keys) fields
  pure { name, type, comment, extra }

/-! ## Collections and graphs -/

/-- The type definitions, in an object as collections are. -/
def typedefsOfJson : Json → Reading (List Typedef) :=
  record ["typedef"] fun fields => orElse [] (list Typedef.ofJson) fields "typedef"

/-- A graph with the names that are written out. -/
def Graph.ofRawJson (j : Json) : Reading Graph := do
  let fields ← fields j
  let callbackFunctions ← optional (collection "callback-function" CallbackFunction.ofJson) fields
    "callback-functions"
  let callbackInterfaces ← optional (collection "interface" Interface.ofJson) fields
    "callback-interfaces"
  let dictionaries ← optional (collection "dictionary" Dictionary.ofJson) fields "dictionaries"
  let enums ← optional (collection "enum" Enumeration.ofJson) fields "enums"
  let interfaces ← optional (collection "interface" Interface.ofJson) fields "interfaces"
  let mixins ← optional (collection "mixin" Interface.ofJson) fields "mixins"
  let namespaces ← optional (list Interface.ofJson) fields "namespaces"
  let typedefs ← optional typedefsOfJson fields "typedefs"
  let extra := rest ["callback-functions", "callback-interfaces", "dictionaries", "enums",
    "interfaces", "mixins", "typedefs", "namespaces"] fields
  pure { callbackFunctions, callbackInterfaces, dictionaries, enums, interfaces, mixins, typedefs,
         namespaces, extra }

/-- A graph with the names filled in from the keys (`from_value`). -/
def Graph.ofJson (j : Json) : Reading Graph :=
  Graph.fillNames <$> Graph.ofRawJson j

end IdlDecls
