import IdlDecls.Model.TypeRef

/-!
# TypeScript types

How a type reference is spelled in TypeScript. Primitive names are mapped, sequences become arrays,
and a few generic names keep their arguments; any other name stands for itself without arguments. The
item of an array stands in parentheses when its text has a space.
-/

namespace IdlDecls

/-- The TypeScript name of a primitive type (`primitive`). -/
def primitiveName? (name : String) : Option String :=
  if ["DOMString", "USVString", "ByteString", "CSSOMString"].contains name then some "string"
  else if name = "boolean" then some "boolean"
  else if ["byte", "octet", "short", "unsigned short", "long", "unsigned long", "long long",
      "unsigned long long", "float", "unrestricted float", "double",
      "unrestricted double"].contains name then some "number"
  else if name = "bigint" then some "bigint"
  else if name = "any" || name = "object" then some "any"
  else if name = "undefined" || name = "void" then some "void"
  else none

/-- The array of an item (`array_of`). -/
def arrayText (item : String) : String :=
  if item.toList.contains ' ' then "(" ++ item ++ ")[]" else item ++ "[]"

/-- A named type with the texts of its arguments; a missing argument is `any` (`generic`). -/
def genericText (name : String) (arguments : List String) : String :=
  let argument (i : Nat) : String := arguments[i]?.getD "any"
  if name = "sequence" then arrayText (argument 0)
  else if name = "FrozenArray" || name = "ObservableArray" then
    "ReadonlyArray<" ++ argument 0 ++ ">"
  else if name = "Promise" then "Promise<" ++ argument 0 ++ ">"
  else if name = "record" then "Record<" ++ argument 0 ++ ", " ++ argument 1 ++ ">"
  else (primitiveName? name).getD name

/-- A type, or null as well where that is marked. -/
def nullableText (nullable : Option Bool) (base : String) : String :=
  if nullable.getD false then base ++ " | null" else base

mutual

/-- The spelling of a type reference; one that says nothing is `any` (`ts_type`). -/
def TypeRef.text : TypeRef → String
  | .mk head arguments nullable =>
    nullableText nullable
      (match head with
        | none => "any"
        | some head =>
          head.text (match arguments with
            | none => []
            | some arguments => arguments.texts))

/-- The spelling of a head with the texts of its arguments. -/
def TypeHead.text (arguments : List String) : TypeHead → String
  | .named name => genericText name arguments
  | .union members => " | ".intercalate (TypeRef.textsOfList members)

/-- The spellings of generic arguments. -/
def TypeArguments.texts : TypeArguments → List String
  | .many types => TypeRef.textsOfList types
  | .one type => [type.text]

/-- The spellings of references one by one. -/
def TypeRef.textsOfList : List TypeRef → List String
  | [] => []
  | t :: rest => t.text :: TypeRef.textsOfList rest

end

end IdlDecls
