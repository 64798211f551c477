import IdlDecls.Proofs.Model.Written

/-!
# Type references in their written form

A type reference shares an object with the fields of whatever has the type. Wherever the three fields
of the reference are found in an object (`TypeRef.WrittenIn`), the reader makes the same reference
of them (`TypeRef.ofFields_written`), through unions and generic arguments at any depth.
-/

namespace IdlDecls

/-- The fields of an object hold a type reference. -/
structure TypeRef.WrittenIn (type : TypeRef) (fields : List (String × Json)) : Prop where
  head : Entries.get? fields "type" = type.head.map (TypeHead.toJson .ascending)
  arguments : Entries.get? fields "subtype" = type.arguments.map (TypeArguments.toJson .ascending)
  nullable : Entries.get? fields "nullable" = type.nullable.map .bool

/-- The fields of a type reference are found under their keys and nowhere else. -/
@[simp] theorem TypeRef.last?_fields (type : TypeRef) (key : String) :
    Entries.last? (type.fields .ascending) key =
      if key = "type" then type.head.map (TypeHead.toJson .ascending)
      else if key = "subtype" then type.arguments.map (TypeArguments.toJson .ascending)
      else if key = "nullable" then type.nullable.map .bool
      else none := by
  obtain ⟨head, arguments, nullable⟩ := type
  rw [TypeRef.fields.eq_def]
  by_cases htype : key = "type"
  · subst htype
    cases head <;> cases arguments <;> simp [TypeRef.head]
  by_cases hsubtype : key = "subtype"
  · subst hsubtype
    cases head <;> cases arguments <;> simp [TypeRef.arguments]
  by_cases hnullable : key = "nullable"
  · subst hnullable
    cases head <;> cases arguments <;> simp [TypeRef.nullable]
  · cases head <;> cases arguments <;>
      simp [htype, hsubtype, hnullable, Ne.symm htype, Ne.symm hsubtype, Ne.symm hnullable]

@[simp] theorem TypeRef.keysIn_fields {keys : List String} (htype : "type" ∈ keys)
    (hsubtype : "subtype" ∈ keys) (hnullable : "nullable" ∈ keys) (type : TypeRef) :
    KeysIn keys (type.fields .ascending) := by
  obtain ⟨head, arguments, nullable⟩ := type
  rw [TypeRef.fields.eq_def]
  cases head <;> cases arguments <;> simp [htype, hsubtype, hnullable]

/-! ## Parts among fields -/

theorem TypeHead.inFields?_eq (fields : List (String × Json)) :
    TypeHead.inFields? fields =
      (match Entries.get? fields "type" with
      | none => some none
      | some value => TypeHead.ofJson? value) := by
  induction fields with
  | nil => rw [TypeHead.inFields?]; rfl
  | cons e rest ih =>
    obtain ⟨k, v⟩ := e
    rw [TypeHead.inFields?, Entries.get?]
    by_cases hk : k = "type"
    · rw [if_pos hk, if_pos hk]
    · rw [if_neg hk, if_neg hk, ih]

theorem TypeArguments.inFields?_eq (fields : List (String × Json)) :
    TypeArguments.inFields? fields =
      (match Entries.get? fields "subtype" with
      | none => some none
      | some value => TypeArguments.ofJson? value) := by
  induction fields with
  | nil => rw [TypeArguments.inFields?]; rfl
  | cons e rest ih =>
    obtain ⟨k, v⟩ := e
    rw [TypeArguments.inFields?, Entries.get?]
    by_cases hk : k = "subtype"
    · rw [if_pos hk, if_pos hk]
    · rw [if_neg hk, if_neg hk, ih]

/-- A reference whose parts come back comes back. -/
theorem TypeRef.ofParts?_written {type : TypeRef} {fields : List (String × Json)}
    (h : type.WrittenIn fields)
    (hhead : ∀ head ∈ type.head, TypeHead.ofJson? (head.toJson .ascending) = some (some head))
    (harguments : ∀ arguments ∈ type.arguments,
      TypeArguments.ofJson? (arguments.toJson .ascending) = some (some arguments)) :
    TypeRef.ofParts? (TypeHead.inFields? fields) (TypeArguments.inFields? fields)
      (Read.flag fields "nullable").toOption = some type := by
  have hheads : TypeHead.inFields? fields = some type.head := by
    rw [TypeHead.inFields?_eq, h.head]
    cases hc : type.head with
    | none => rfl
    | some head => exact hhead head hc
  have hargs : TypeArguments.inFields? fields = some type.arguments := by
    rw [TypeArguments.inFields?_eq, h.arguments]
    cases hc : type.arguments with
    | none => rfl
    | some arguments => exact harguments arguments hc
  rw [hheads, hargs, flag_written h.nullable]
  cases type
  rfl

/-! ## References that come back -/

theorem TypeRef.writtenIn_sorted (type : TypeRef) :
    type.WrittenIn (Entries.sorted (type.fields .ascending)) := by
  have hget := fun key => (Entries.get?_sorted (type.fields .ascending) key).trans
    (TypeRef.last?_fields type key)
  exact ⟨by simp [hget], by simp [hget], by simp [hget]⟩

mutual

theorem TypeRef.ofJson?_written : ∀ (type : TypeRef) {fields : List (String × Json)},
    type.WrittenIn fields → TypeRef.ofJson? (.obj fields) = some type
  | .mk head arguments nullable, fields, h => by
    rw [TypeRef.ofJson?]
    refine TypeRef.ofParts?_written h ?_ ?_
    · cases head with
      | none => simp [TypeRef.head]
      | some head =>
        have hhead := TypeHead.ofJson?_toJson head
        simpa [TypeRef.head] using hhead
    · cases arguments with
      | none => simp [TypeRef.arguments]
      | some arguments =>
        have harguments := TypeArguments.ofJson?_toJson arguments
        simpa [TypeRef.arguments] using harguments

theorem TypeHead.ofJson?_toJson : ∀ head : TypeHead,
    TypeHead.ofJson? (head.toJson .ascending) = some (some head)
  | .named name => by rw [TypeHead.toJson, TypeHead.ofJson?]
  | .union members => by
    rw [TypeHead.toJson, TypeHead.ofJson?, TypeRef.listOfJson?_listToJson members]
    rfl

theorem TypeArguments.ofJson?_toJson : ∀ arguments : TypeArguments,
    TypeArguments.ofJson? (arguments.toJson .ascending) = some (some arguments)
  | .many types => by
    rw [TypeArguments.toJson, TypeArguments.ofJson?, TypeRef.listOfJson?_listToJson types]
  | .one type => by
    have h := type.ofJson?_written type.writtenIn_sorted
    rw [TypeRef.ofJson?] at h
    rw [TypeArguments.toJson, Layout.ascending, TypeArguments.ofJson?, h]
    rfl

theorem TypeRef.listOfJson?_listToJson : ∀ types : List TypeRef,
    TypeRef.listOfJson? (TypeRef.listToJson .ascending types) = some types
  | [] => by rw [TypeRef.listToJson, TypeRef.listOfJson?]
  | type :: rest => by
    rw [TypeRef.listToJson, Layout.ascending, TypeRef.listOfJson?,
      type.ofJson?_written type.writtenIn_sorted, TypeRef.listOfJson?_listToJson rest]
    rfl

end

/-- **A type reference comes back from the object that it shares.** -/
theorem TypeRef.ofFields_written {type : TypeRef} {fields : List (String × Json)}
    (h : type.WrittenIn fields) : TypeRef.ofFields fields = .ok type := by
  rw [TypeRef.ofFields, TypeRef.ofFields?, type.ofJson?_written h]
  rfl

/-- A type reference that stands on its own comes back. -/
theorem restores_typeRef (type : TypeRef) :
    Restores TypeRef.ofJson (TypeRef.toJson .ascending) type :=
  ⟨nofun, TypeRef.ofFields_written type.writtenIn_sorted⟩

end IdlDecls
