import IdlDecls.Removal.Template

/-!
# Pruning

`Json.prune` removes from a value what a template names and leaves everything else as it is, in its
order. Names filter the items of an array by identity and the fields of an object by key; a nested
template goes into the fields that the object has. A template that meets another kind of value fails
with the keys that lead there.
-/

namespace IdlDecls

/-- The kind of value that a template needs. -/
inductive Shape where
  | object
  | array
deriving DecidableEq, Repr

/-- The kind in words. -/
def Shape.text : Shape → String
  | .object => "an object"
  | .array => "an array"

/-- A value that its template does not fit: the keys that lead to it, and the kind that the template
needs. -/
structure Mismatch where
  path : List String
  expected : Shape
deriving DecidableEq, Repr

/-- The message for a value that its template does not fit. -/
def Mismatch.message (e : Mismatch) : String :=
  "Removal template " ++ ".".intercalate e.path ++ " is " ++ e.expected.text ++
    " but the original field is not"

/-- Pruning below a key: a mismatch inside is reported behind the key. -/
def Mismatch.within {α : Type} (key : String) : Except Mismatch α → Except Mismatch α
  | .ok value => .ok value
  | .error e => .error ⟨key :: e.path, e.expected⟩

namespace Json

/-- The text of a field, if it is a text and not empty (in `identity`). -/
def nonemptyText? (fields : List (String × Json)) (key : String) : Option String :=
  match Entries.get? fields key with
  | some (.str s) => if s = "" then none else some s
  | _ => none

/-- The name that an item of an array goes by: itself if it is a text, else its `name`, else its
`new-type` (`identity`). -/
def identity? : Json → Option String
  | .str name => some name
  | .obj fields => (nonemptyText? fields "name").or (nonemptyText? fields "new-type")
  | _ => none

theorem nonemptyText?_eq_some_iff {fields : List (String × Json)} {key s : String} :
    nonemptyText? fields key = some s ↔ Entries.get? fields key = some (.str s) ∧ s ≠ "" := by
  rw [nonemptyText?]
  split
  · rename_i text heq
    by_cases hempty : text = ""
    · simp only [heq, hempty, if_true, Option.some.injEq, str.injEq, reduceCtorEq, false_iff, not_and]
      exact fun h hne => hne h.symm
    · simp only [heq, if_neg hempty, Option.some.injEq, str.injEq]
      exact ⟨fun h => ⟨h, h ▸ hempty⟩, And.left⟩
  · rename_i hnone
    simp only [reduceCtorEq, false_iff, not_and]
    exact fun h => absurd h (hnone s)

/-- A text goes by itself, the empty one too. -/
@[simp] theorem identity?_str (s : String) : (str s).identity? = some s := rfl

/-- An item with a name goes by it, whatever else it has. -/
theorem identity?_of_name {fields : List (String × Json)} {s : String}
    (h : Entries.get? fields "name" = some (.str s)) (hs : s ≠ "") :
    (obj fields).identity? = some s := by
  rw [identity?, nonemptyText?_eq_some_iff.2 ⟨h, hs⟩, Option.some_or]

/-- An item without a name goes by its new type. -/
theorem identity?_of_newType {fields : List (String × Json)} {s : String}
    (hname : ∀ name, Entries.get? fields "name" = some (.str name) → name = "")
    (h : Entries.get? fields "new-type" = some (.str s)) (hs : s ≠ "") :
    (obj fields).identity? = some s := by
  have hnone : nonemptyText? fields "name" = none :=
    Option.eq_none_iff_forall_ne_some.2 fun name hsome =>
      (nonemptyText?_eq_some_iff.1 hsome).2 (hname name (nonemptyText?_eq_some_iff.1 hsome).1)
  rw [identity?, hnone, Option.none_or, nonemptyText?_eq_some_iff.2 ⟨h, hs⟩]

/-- Removes the items or fields with the listed names (`filter_names`). -/
def removeNames (names : List String) : Json → Except Mismatch Json
  | .arr items =>
    .ok (.arr (items.filter fun item => !(item.identity?.any names.contains)))
  | .obj fields => .ok (.obj (fields.filter fun field => !names.contains field.1))
  | _ => .error ⟨[], .array⟩

/-- The template for a key. -/
def templateFor? (entries : List (String × Template)) (key : String) : Option Template :=
  Entries.get? entries key

mutual

/-- Removes what a template names; no value is left when it names the value itself (`prune_value`,
by `apply`). -/
def prune : Json → Template → Except Mismatch (Option Json)
  | _, .remove => .ok none
  | value, .names names => some <$> removeNames names value
  | .obj fields, .nested entries => (fun kept => some (.obj kept)) <$> pruneFields fields entries
  | _, .nested _ => .error ⟨[], .object⟩

/-- Removes from fields what the templates for their keys name (`filter_object`). -/
def pruneFields :
    List (String × Json) → List (String × Template) → Except Mismatch (List (String × Json))
  | [], _ => .ok []
  | (key, value) :: rest, entries =>
    match templateFor? entries key with
    | none => ((key, value) :: ·) <$> pruneFields rest entries
    | some template =>
      match Mismatch.within key (prune value template) with
      | .error e => .error e
      | .ok none => pruneFields rest entries
      | .ok (some kept) => ((key, kept) :: ·) <$> pruneFields rest entries

end

end Json

end IdlDecls
