import IdlDecls.Json.Printer

/-!
# Removal templates

A removal template is shaped like the value that it prunes and says at each place what goes: the
whole value (`remove`), the listed items or keys (`names`), or parts of the values of some keys
(`nested`). It is read from JSON, where null, a list of names and an object stand for the three; a
value that is none of them is refused with the keys that lead to it.
-/

namespace IdlDecls

/-- What to remove from a value. -/
inductive Template where
  /-- The value itself. -/
  | remove
  /-- The items or fields with these names. -/
  | names (names : List String)
  /-- What each template says of the field with its key. -/
  | nested (entries : List (String × Template))

namespace Template

/-- The template that removes nothing (`default`). -/
def keepAll : Template := .nested []

instance : Inhabited Template := ⟨keepAll⟩

/-! ## Reading -/

/-- What was found where a template cannot be read. -/
inductive Fault where
  /-- A list of names holds something else. -/
  | notName (found : Json)
  /-- A value that is neither null nor a list nor an object. -/
  | notTemplate (found : Json)

/-- The fault in words. -/
def Fault.reason : Fault → String
  | .notName found => "expected a name, found " ++ found.compact
  | .notTemplate found =>
    "expected null, a list of names, or an object, found " ++ found.compact

/-- A value that is no template: the keys that lead to the first fault, and the fault. -/
structure Invalid where
  path : List String
  fault : Fault

/-- The message for a value that is no template. -/
def Invalid.message (e : Invalid) : String :=
  "Invalid removal template at " ++ ".".intercalate e.path ++ ": " ++ e.fault.reason

/-- Reading below a key: a fault inside is reported behind the key. -/
def within {α : Type} (key : String) : Except Invalid α → Except Invalid α
  | .ok value => .ok value
  | .error e => .error ⟨key :: e.path, e.fault⟩

/-- A list of names. -/
def namesOfJson : List Json → Except Invalid (List String)
  | [] => .ok []
  | .str name :: rest => (name :: ·) <$> namesOfJson rest
  | found :: _ => .error ⟨[], .notName found⟩

mutual

/-- A template (`from_value`, by `parse`). -/
def ofJson : Json → Except Invalid Template
  | .null => .ok .remove
  | .arr items => .names <$> namesOfJson items
  | .obj fields => .nested <$> entriesOfJson fields
  | found => .error ⟨[], .notTemplate found⟩

/-- The templates of an object's fields, in order. -/
def entriesOfJson : List (String × Json) → Except Invalid (List (String × Template))
  | [] => .ok []
  | (key, value) :: rest =>
    match within key (ofJson value) with
    | .error e => .error e
    | .ok template => ((key, template) :: ·) <$> entriesOfJson rest

end

end Template

end IdlDecls
