import IdlDecls.Proofs.Exposure.Written
import IdlDecls.Proofs.Removal.PrunedGraph

/-!
# Reading what was written

`Restores read write value` says that a value comes back from its written form. There is one law for
each way of reading: a list restores if its items do, a collection if its entries do, and so on. A
record is written as an object with its fields and the extra ones, and as long as the extra fields
stand beside the others (`Extra.Beside`) a lookup in this object finds the fields as they were
written (`get?_written`) and the rest is the extra fields (`rest_written`).
-/

namespace IdlDecls

open Read

variable {α : Type}

/-! ## Fields of written objects -/

/-- The value of the last entry with a key, which is the one that sorting keeps. -/
def Entries.last? (l : Entries α) (key : String) : Option α :=
  get? l.reverse key

/-- Every entry stands under one of the keys. -/
def KeysIn (keys : List String) (l : Entries α) : Prop :=
  ∀ e ∈ l, e.1 ∈ keys

section Pieces

variable {β : Type} {keys : List String} {field : String} {write : β → Json}

@[simp] theorem last?_nil (key : String) : Entries.last? ([] : Entries α) key = none := rfl

@[simp] theorem last?_append (a b : Entries α) (key : String) :
    Entries.last? (a ++ b) key = (Entries.last? b key).or (Entries.last? a key) := by
  rw [Entries.last?, List.reverse_append, Entries.get?_append]
  rfl

@[simp] theorem last?_cons (k : String) (v : α) (l : Entries α) (key : String) :
    Entries.last? ((k, v) :: l) key =
      (Entries.last? l key).or (if k = key then some v else none) := by
  rw [Entries.last?, List.reverse_cons, Entries.get?_append]
  rfl

/-- Where no key repeats the last entry with a key is the first. -/
theorem last?_of_ascending {l : Entries α} (h : Entries.Ascending l) (key : String) :
    Entries.last? l key = Entries.get? l key :=
  Entries.get?_reverse_of_ascending h key

@[simp] theorem last?_given (value : Option β) (key : String) :
    Entries.last? (Write.given field write value) key =
      if field = key then value.map write else none :=
  get?_given field write value key

@[simp] theorem last?_nonempty (values : List β) (key : String) :
    Entries.last? (Write.nonempty field write values) key =
      if field = key ∧ values ≠ [] then some (.arr (values.map write)) else none := by
  cases values <;> simp [Write.nonempty]

@[simp] theorem keysIn_nil : KeysIn keys ([] : Entries α) := by simp [KeysIn]

@[simp] theorem keysIn_append (a b : Entries α) :
    KeysIn keys (a ++ b) ↔ KeysIn keys a ∧ KeysIn keys b := by
  simp only [KeysIn, List.mem_append, or_imp, forall_and]

@[simp] theorem keysIn_cons (k : String) (v : α) (l : Entries α) :
    KeysIn keys ((k, v) :: l) ↔ k ∈ keys ∧ KeysIn keys l := by
  simp [KeysIn]

@[simp] theorem keysIn_given (h : field ∈ keys) (value : Option β) :
    KeysIn keys (Write.given field write value) := by
  cases value <;> simp [Write.given, h]

@[simp] theorem keysIn_nonempty (h : field ∈ keys) (values : List β) :
    KeysIn keys (Write.nonempty field write values) := by
  cases values <;> simp [Write.nonempty, h]

end Pieces

/-! ## Extra fields -/

theorem last?_entries (extra : Extra) (key : String) :
    Entries.last? extra.entries key = extra.get? key :=
  last?_of_ascending extra.ascending key

section Extra

variable {keys : List String} {extra : Extra}

/-- A field is found as it was written. -/
theorem get?_written (h : extra.Beside keys) {key : String} (hkey : key ∈ keys)
    (pieces : List (String × Json)) :
    Entries.get? (Entries.sorted (pieces ++ extra.entries)) key = Entries.last? pieces key := by
  rw [Entries.get?_sorted]
  refine (last?_append pieces extra.entries key).trans ?_
  rw [last?_entries, h key hkey, Option.none_or]

/-- What is no field of a written object is the extra fields. -/
theorem rest_written (h : extra.Beside keys) {pieces : List (String × Json)}
    (hpieces : KeysIn keys pieces) :
    rest keys (Entries.sorted (pieces ++ extra.entries)) = extra := by
  refine Keyed.ext_get? fun key => ?_
  rw [rest, Keyed.get?_ofList, ← List.filter_reverse, get?_filter_keys,
    Entries.get?_reverse_of_ascending (Entries.ascending_sorted _)]
  by_cases hkey : key ∈ keys
  · rw [if_pos hkey, h key hkey]
  · have hnone : Entries.last? pieces key = none := by
      refine Entries.get?_eq_none_iff.2 fun e he heq => ?_
      exact hkey (heq ▸ hpieces e (List.mem_reverse.1 he))
    rw [if_neg hkey, Entries.get?_sorted]
    refine (last?_append pieces extra.entries key).trans ?_
    rw [last?_entries, hnone, Option.or_none]

end Extra

/-! ## Values that come back -/

/-- A value comes back from its written form, which is not null. -/
structure Restores (read : Json → Reading α) (write : α → Json) (value : α) : Prop where
  given : write value ≠ .null
  read_eq : read (write value) = .ok value

section Laws

variable {read : Json → Reading α} {write : α → Json}

theorem restores_text (s : String) : Restores text .str s := ⟨nofun, rfl⟩

theorem restores_exposure {e : Exposure} (h : e.Plain) : Restores exposure Write.exposure e :=
  ⟨nofun, Exposure.read_written h⟩

/-- JSON without a meaning comes back unless it is null. -/
theorem restores_literal {j : Json} (h : j ≠ .null) : Restores pure id j := ⟨h, rfl⟩

theorem mapM_written {values : List α} (h : ∀ v ∈ values, Restores read write v) :
    (values.map write).mapM read = .ok values := by
  rw [mapM_eq_ok_iff, List.forall₂_map_left_iff, List.forall₂_same]
  exact fun v hv => (h v hv).read_eq

theorem restores_list {values : List α} (h : ∀ v ∈ values, Restores read write v) :
    Restores (list read) (fun values => .arr (values.map write)) values :=
  ⟨nofun, mapM_written h⟩

theorem mapM_written_entries {entries : Entries α} (h : ∀ e ∈ entries, Restores read write e.2) :
    (entries.map fun e => (e.1, write e.2)).mapM (fun field => (field.1, ·) <$> read field.2) =
      .ok entries := by
  rw [mapM_eq_ok_iff, List.forall₂_map_left_iff, List.forall₂_same]
  exact fun e he => map_eq_ok_iff.2 ⟨e.2, (h e he).read_eq, rfl⟩

theorem Keyed.ofList_entries (m : Keyed α) : Keyed.ofList m.entries = m :=
  Keyed.ext_get? fun key => by
    rw [Keyed.get?_ofList, Entries.get?_reverse_of_ascending m.ascending]
    rfl

theorem restores_collection {key : String} {m : Keyed α}
    (h : ∀ name v, m.get? name = some v → Restores read write v) :
    Restores (collection key read) (Write.collection .ascending key write) m := by
  have hentries : ∀ e ∈ m.entries, Restores read write e.2 := fun e he =>
    h e.1 e.2 (Keyed.get?_eq_some_iff_mem.2 he)
  refine ⟨nofun, ?_⟩
  have hkeyed : keyed read (.obj (m.entries.map fun e => (e.1, write e.2))) = .ok m := by
    rw [keyed, mapM_written_entries hentries]
    exact congrArg Except.ok m.ofList_entries
  have hobject : Write.collection .ascending key write m =
      .obj [(key, .obj (m.entries.map fun e => (e.1, write e.2)))] := rfl
  rw [hobject, collection, record, orElse, Entries.get?, if_pos rfl]
  exact hkeyed

/-! ## Fields that come back -/

variable {fields : List (String × Json)} {key : String}

theorem optional_written {value : Option α} (hvalue : ∀ v ∈ value, Restores read write v)
    (h : Entries.get? fields key = value.map write) : optional read fields key = .ok value := by
  rw [Read.optional, h]
  cases value with
  | none => rfl
  | some v =>
    obtain ⟨hgiven, hread⟩ := hvalue v rfl
    rw [Option.map_some]
    split
    · rename_i heq; cases heq
    · rename_i heq; exact absurd (Option.some.inj heq) hgiven
    · rename_i heq; cases heq; rw [hread]; rfl

theorem orElse_written {default value : α} (hvalue : Restores read write value)
    (h : Entries.get? fields key = some (write value)) :
    orElse default read fields key = .ok value := by
  rw [orElse, h]
  exact hvalue.read_eq

theorem required_written {value : α} (hvalue : Restores read write value)
    (h : Entries.get? fields key = some (write value)) : required read fields key = .ok value := by
  rw [required, h]
  exact hvalue.read_eq

/-- A collection that may be left out comes back if its entries do. -/
theorem collection_written {entries : String} {c : Option (Keyed α)}
    (hc : ∀ name v, lookup? c name = some v → Restores read write v)
    (h : Entries.get? fields key = c.map (Write.collection .ascending entries write)) :
    Read.optional (collection entries read) fields key = .ok c := by
  refine optional_written (fun m hm => restores_collection fun name v hv => hc name v ?_) h
  rw [hm]
  exact hv

/-- A list that is left out when empty has the empty list as its default. -/
theorem nonempty_written {values : List α} (hvalues : ∀ v ∈ values, Restores read write v)
    (h : Entries.get? fields key =
      if values ≠ [] then some (.arr (values.map write)) else none) :
    orElse [] (list read) fields key = .ok values := by
  by_cases hempty : values = []
  · rw [orElse, h, if_neg (not_not.2 hempty), hempty]
    rfl
  · rw [if_pos hempty] at h
    exact orElse_written (restores_list hvalues) h

theorem flag_written {value : Option Bool} (h : Entries.get? fields key = value.map .bool) :
    flag fields key = .ok value := by
  rw [flag, h]
  cases value <;> rfl

end Laws

end IdlDecls
