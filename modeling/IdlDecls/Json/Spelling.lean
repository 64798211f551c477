import IdlDecls.Json.Token

/-!
# What JSON texts spell

A text that follows the grammar spells a tree. The tree is a value unless one of its strings spells
no text, one of its numbers is out of range or its arrays and objects nest too deep (`value?`). A
reader that has no use for a field need not mind what stands in it: `select` drops such fields before
the rest becomes a value.
-/

namespace IdlDecls.Json

/-- The tree of a text. -/
inductive Spelling where
  | null
  | bool (value : Bool)
  | num (value : Option Number)
  | str (value : Option String)
  | arr (items : List Spelling)
  | obj (fields : List (Option String × Spelling))

namespace Spelling

instance : Inhabited Spelling := ⟨.null⟩

/-! ## Values -/

mutual

/-- The value of a tree with at most `limit` levels of arrays and objects. -/
def value? (limit : Nat) : Spelling → Option Json
  | .null => some .null
  | .bool value => some (.bool value)
  | .num value => value.map .num
  | .str value => value.map .str
  | .arr items =>
    match limit with
    | 0 => none
    | limit + 1 => (itemValues? limit items).map .arr
  | .obj fields =>
    match limit with
    | 0 => none
    | limit + 1 => (fieldValues? limit fields).map .obj

/-- The values of items, if all have one. -/
def itemValues? (limit : Nat) : List Spelling → Option (List Json)
  | [] => some []
  | item :: rest => do
    let value ← value? limit item
    let values ← itemValues? limit rest
    pure (value :: values)

/-- The values of fields with their keys, if all have them. -/
def fieldValues? (limit : Nat) : List (Option String × Spelling) → Option (List (String × Json))
  | [] => some []
  | (key, field) :: rest => do
    let key ← key
    let value ← value? limit field
    let values ← fieldValues? limit rest
    pure ((key, value) :: values)

end

/-! ## Fields of interest -/

/-- An object without the fields under other keys than `keys`. A key that spells no text stays. -/
def select (keys : List String) : Spelling → Spelling
  | .obj fields => .obj (fields.filter fun field => field.1.all keys.contains)
  | spelling => spelling

/-- An array whose items are changed one by one. -/
def mapItems (change : Spelling → Spelling) : Spelling → Spelling
  | .arr items => .arr (items.map change)
  | spelling => spelling

end Spelling

end IdlDecls.Json
