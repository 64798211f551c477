import IdlDecls.Keyed.Entries

/-!
# Keyed collections

A `Keyed α` holds at most one value for each name and lists its entries in ascending order of names;
the order is part of the type, so two collections with the same values are equal (`Keyed.ext_get?`).
Each operation is described through `get?`.
-/

namespace IdlDecls

/-- A finite map from names to values, listed in ascending order of names. -/
structure Keyed (α : Type u) where
  /-- The entries in order. -/
  entries : Entries α
  /-- The names ascend strictly. -/
  ascending : Entries.Ascending entries

namespace Keyed

variable {α : Type u} {β : Type v} {ε : Type w}

theorem eq_of_entries {a b : Keyed α} (h : a.entries = b.entries) : a = b := by
  cases a; cases b; cases h; rfl

instance [DecidableEq α] : DecidableEq (Keyed α) := fun a b =>
  decidable_of_iff (a.entries = b.entries) ⟨eq_of_entries, fun h => h ▸ rfl⟩

/-- The collection without entries. -/
def empty : Keyed α := ⟨[], .nil⟩

instance : EmptyCollection (Keyed α) := ⟨empty⟩
instance : Inhabited (Keyed α) := ⟨empty⟩

/-- The value with a name. -/
def get? (m : Keyed α) (key : String) : Option α := m.entries.get? key

/-- Whether a name has a value. -/
def contains (m : Keyed α) (key : String) : Bool := (m.get? key).isSome

/-- Whether there are no entries. -/
def isEmpty (m : Keyed α) : Bool := m.entries.isEmpty

/-- The names, ascending. -/
def keys (m : Keyed α) : List String := m.entries.map (·.1)

/-- The values in the order of their names. -/
def values (m : Keyed α) : List α := m.entries.map (·.2)

/-- Gives a name a value, in place of the one it had. -/
def insert (m : Keyed α) (key : String) (value : α) : Keyed α :=
  ⟨Entries.insert key value m.entries, Entries.ascending_insert m.ascending⟩

/-- The collection of a list's entries; of two with one name the later stays. -/
def ofList (l : List (String × α)) : Keyed α := ⟨Entries.sorted l, Entries.ascending_sorted l⟩

/-- The entries that a test selects. -/
def filter (p : String → α → Bool) (m : Keyed α) : Keyed α :=
  ⟨m.entries.filter fun e => p e.1 e.2, m.ascending.filter _⟩

/-- Replaces every value by one computed from its name and itself. -/
def map (f : String → α → β) (m : Keyed α) : Keyed β :=
  ⟨m.entries.map fun e => (e.1, f e.1 e.2), by
    simpa [Entries.Ascending, List.pairwise_map] using m.ascending⟩

/-- Replaces the value with a name, if there is one. -/
def modify (m : Keyed α) (key : String) (f : α → α) : Keyed α :=
  m.map fun k v => if k = key then f v else v

/-- Adds the entries of one collection to another in ascending order. A new name is inserted with its
value; for a shared name `join` computes the value from the old one and the added one, or fails. -/
def joinM (join : String → α → α → Except ε α) (base addition : Keyed α) : Except ε (Keyed α) :=
  addition.entries.foldlM (fun acc e =>
    match acc.get? e.1 with
    | none => pure (acc.insert e.1 e.2)
    | some old => acc.insert e.1 <$> join e.1 old e.2) base

@[simp] theorem get?_empty (key : String) : (∅ : Keyed α).get? key = none := rfl

@[simp] theorem get?_insert (m : Keyed α) (key key' : String) (value : α) :
    (m.insert key value).get? key' = if key = key' then some value else m.get? key' :=
  Entries.get?_insert ..

theorem ext_get? {a b : Keyed α} (h : ∀ key, a.get? key = b.get? key) : a = b :=
  eq_of_entries (Entries.ext_get? a.ascending b.ascending h)

theorem get?_eq_some_iff_mem {m : Keyed α} {key : String} {value : α} :
    m.get? key = some value ↔ (key, value) ∈ m.entries :=
  Entries.get?_eq_some_iff_mem m.ascending

@[simp] theorem get?_map (f : String → α → β) (m : Keyed α) (key : String) :
    (m.map f).get? key = (m.get? key).map (f key) := by
  simp only [get?, map]
  generalize m.entries = l
  induction l with
  | nil => rfl
  | cons e rest ih =>
    simp only [List.map_cons, Entries.get?]
    split
    · rename_i h; subst h; rfl
    · exact ih

@[simp] theorem get?_filter (p : String → α → Bool) (m : Keyed α) (key : String) :
    (m.filter p).get? key = (m.get? key).filter (p key) := by
  apply Option.ext
  intro v
  simp only [Option.filter_eq_some_iff, get?_eq_some_iff_mem, filter,
    List.mem_filter]

@[simp] theorem get?_modify (m : Keyed α) (key key' : String) (f : α → α) :
    (m.modify key f).get? key' = if key' = key then (m.get? key').map f else m.get? key' := by
  simp only [modify, get?_map]
  split
  · rfl
  · simp

@[simp] theorem keys_map (f : String → α → β) (m : Keyed α) : (m.map f).keys = m.keys := by
  simp [keys, map, Function.comp_def]

end Keyed

end IdlDecls
