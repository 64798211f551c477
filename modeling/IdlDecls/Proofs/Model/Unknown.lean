import IdlDecls.Proofs.Model.RestoredGraph

/-!
# Fields without a meaning

A `Schema` says of a value where definitions stand in it and which keys mean something there; every
other key of a definition is without a meaning. A path leads from the top of a value through
definitions to such a key, and `Schema.extra?` looks its value up. The lookup takes a `Form`, since
what is read is held less strictly than what is written: a collection may be given as an array, and
only a written object has ascending keys.

The main result compares the two lookups path by path. One lemma for each way of reading says that
the writer's value answers every path as the value that was read does (`Carries`); reading under a
key may fill a name in, so the lemmas for named definitions hold for every name. For a graph this is
`Graph.carries`: nothing without a meaning is lost, changed or made up.
-/

namespace IdlDecls

open Read

/-! ## Paths and schemas -/

/-- One step down into a value. -/
inductive Step where
  | key (name : String)
  | index (i : Nat)
deriving DecidableEq, Repr

/-- What stands where in a value. -/
inductive Schema where
  /-- An object; some of the keys that mean something hold definitions in turn. -/
  | record (keys : List String) (parts : List (String × Schema))
  /-- An object with one field, or the array of this field. -/
  | wrapper (key : String) (content : Schema)
  | list (item : Schema)
  /-- An object with one kind of value under any key. -/
  | map (entry : Schema)

/-- How a value holds what it holds. -/
inductive Form where
  /-- As it may be read. -/
  | given
  /-- As it is written: objects have ascending keys, and wrappers are objects. -/
  | written
deriving DecidableEq, Repr

namespace Form

/-- The fields of an object. -/
def fields? : Form → Json → Option (List (String × Json))
  | .given, .obj fields => some fields
  | .written, .obj fields => if Entries.Ascending fields then some fields else none
  | _, _ => none

/-- What a wrapper holds. -/
def inside? (key : String) : Form → Json → Option Json
  | .given, .arr items => items.head?
  | form, j => (form.fields? j).bind (Entries.get? · key)

end Form

namespace Schema

/-- What is one step down, with its schema if it has a meaning. -/
def child? (form : Form) : Step → Schema → Json → Option (Option Schema × Json)
  | .key key, .record keys parts, j =>
    (form.fields? j).bind fun fields =>
      if key ∈ keys then
        (Entries.get? parts key).bind fun part => (Entries.get? fields key).map (some part, ·)
      else (Entries.last? fields key).map (none, ·)
  | .key key, .wrapper name content, j =>
    if key = name then (form.inside? name j).map (some content, ·) else none
  | .key key, .map entry, j =>
    (form.fields? j).bind fun fields => (Entries.last? fields key).map (some entry, ·)
  | .index i, .list item, .arr items => items[i]?.map (some item, ·)
  | _, _, _ => none

/-- The value without a meaning that a path leads to. -/
def extra? (form : Form) : List Step → Option Schema → Json → Option Json
  | [], none, j => some j
  | step :: path, some schema, j =>
    (schema.child? form step j).bind fun child => extra? form path child.1 child.2
  | _, _, _ => none

end Schema

/-! ## Schemas of the definitions -/

def Param.schema : Schema := .record Param.keys []

def Signature.schema : Schema := .record Signature.keys [("param", .list Param.schema)]

def Constant.schema : Schema := .record Constant.keys []

def Method.schema : Schema := .record Method.keys [("signature", .list Signature.schema)]

def Property.schema : Schema := .record Property.keys []

def Constructor.schema : Schema := .record Constructor.keys [("signature", .list Signature.schema)]

def IteratorDecl.schema : Schema := .record IteratorDecl.keys []

def Member.schema : Schema := .record Member.keys []

/-- A collection of definitions under their names. -/
def Schema.collection (key : String) (entry : Schema) : Schema := .wrapper key (.map entry)

def Interface.schema : Schema :=
  .record Interface.keys
    [("constants", .collection "constant" Constant.schema),
      ("methods", .collection "method" Method.schema),
      ("properties", .collection "property" Property.schema),
      ("constructor", Constructor.schema), ("iterator", IteratorDecl.schema)]

def Dictionary.schema : Schema :=
  .record Dictionary.keys [("members", .collection "member" Member.schema)]

def Enumeration.schema : Schema := .record Enumeration.keys []

def CallbackFunction.schema : Schema :=
  .record CallbackFunction.keys [("signature", .list Signature.schema)]

def Typedef.schema : Schema := .record Typedef.keys []

def Graph.schema : Schema :=
  .record Graph.fieldKeys
    [("callback-functions", .collection "callback-function" CallbackFunction.schema),
      ("callback-interfaces", .collection "interface" Interface.schema),
      ("dictionaries", .collection "dictionary" Dictionary.schema),
      ("enums", .collection "enum" Enumeration.schema),
      ("interfaces", .collection "interface" Interface.schema),
      ("mixins", .collection "mixin" Interface.schema),
      ("typedefs", .wrapper "typedef" (.list Typedef.schema)),
      ("namespaces", .list Interface.schema)]

/-! ## Lookups -/

namespace Form

@[simp] theorem fields?_given (fields : List (String × Json)) :
    fields? .given (.obj fields) = some fields := rfl

@[simp] theorem fields?_null (form : Form) : form.fields? .null = none := by
  cases form <;> rfl

theorem inside?_written (key : String) (j : Json) :
    inside? key .written j = (fields? .written j).bind (Entries.get? · key) := by
  cases j <;> rfl

theorem fields?_written_eq_some_iff {j : Json} {fields : List (String × Json)} :
    fields? .written j = some fields ↔ j = .obj fields ∧ Entries.Ascending fields := by
  cases j with
  | obj fields' =>
    by_cases hasc : Entries.Ascending fields'
    · simp only [fields?, if_pos hasc, Option.some.injEq, Json.obj.injEq]
      exact ⟨fun h => ⟨h, h ▸ hasc⟩, fun h => h.1⟩
    · simp only [fields?, if_neg hasc, Json.obj.injEq]
      exact ⟨nofun, fun h => absurd (h.1 ▸ h.2) hasc⟩
  | null | bool _ | num _ | str _ | arr _ => simp [fields?]

theorem fields?_written {fields : List (String × Json)} (hasc : Entries.Ascending fields) :
    fields? .written (.obj fields) = some fields :=
  fields?_written_eq_some_iff.2 ⟨rfl, hasc⟩

@[simp] theorem fields?_ascending (fields : List (String × Json)) :
    fields? .written (Layout.ascending fields) = some (Entries.sorted fields) :=
  fields?_written (Entries.ascending_sorted fields)

end Form

namespace Schema

@[simp] theorem extra?_nil (form : Form) (schema : Schema) (j : Json) :
    extra? form [] (some schema) j = none := rfl

theorem extra?_cons (form : Form) (step : Step) (path : List Step) (schema : Schema) (j : Json) :
    extra? form (step :: path) (some schema) j =
      (schema.child? form step j).bind fun child => extra? form path child.1 child.2 := rfl

theorem map_bind_extra? (form : Form) (path : List Step) (meaning : Option Schema)
    (value : Option Json) :
    ((value.map (meaning, ·)).bind fun child => extra? form path child.1 child.2) =
      value.bind (extra? form path meaning) := by
  cases value <;> rfl

/-- Null holds nothing. -/
@[simp] theorem extra?_null (form : Form) (path : List Step) (schema : Schema) :
    extra? form path (some schema) .null = none := by
  cases path with
  | nil => rfl
  | cons step path =>
    cases step <;> cases schema <;> cases form <;> simp [extra?_cons, child?, Form.inside?]

/-- An empty list holds nothing. -/
@[simp] theorem extra?_list_empty (form : Form) (path : List Step) (item : Schema) :
    extra? form path (some (list item)) (.arr []) = none := by
  rcases path with _ | ⟨_ | _, _⟩ <;> simp [extra?_cons, child?]

end Schema

/-! ## What is carried over -/

/-- What is written answers every path as what was read. -/
def Carried (schema : Schema) (given written : Option Json) : Prop :=
  ∀ path, given.bind (Schema.extra? .given path (some schema)) =
    written.bind (Schema.extra? .written path (some schema))

/-- Reading and writing carry everything without a meaning over. -/
def Carries {α : Type} (schema : Schema) (read : Json → Reading α) (write : α → Json) : Prop :=
  ∀ j value, read j = .ok value → Carried schema (some j) (some (write value))

theorem carried_none (schema : Schema) : Carried schema none none := fun _ => rfl

/-- **A record carries its extra fields over**, and whatever its parts do. -/
theorem carried_record {keys : List String} {parts : List (String × Schema)}
    {fields pieces : List (String × Json)} (hpieces : KeysIn keys pieces)
    (hparts : ∀ part ∈ parts,
      Carried part.2 (Entries.get? fields part.1) (Entries.last? pieces part.1)) :
    Carried (.record keys parts) (some (.obj fields))
      (some (Layout.ascending (pieces ++ (rest keys fields).entries))) := by
  have hbeside : (rest keys fields).Beside keys := Extra.beside_rest keys fields
  rintro (_ | ⟨key | i, path⟩)
  · rfl
  · simp only [Option.bind_some, Schema.extra?_cons, Schema.child?, Form.fields?_given,
      Form.fields?_ascending]
    by_cases hkey : key ∈ keys
    · rw [if_pos hkey, if_pos hkey, get?_written hbeside hkey]
      cases hpart : Entries.get? parts key with
      | none => rfl
      | some part =>
        simp only [Option.bind_some, Schema.map_bind_extra?]
        exact hparts (key, part) (Entries.mem_of_get? hpart) path
    · have hextra : ∀ l : List (String × Json), (rest keys l).get? key = Entries.last? l key := by
        intro l
        rw [rest, Keyed.get?_ofList, ← List.filter_reverse, get?_filter_keys, if_neg hkey]
        rfl
      rw [if_neg hkey, if_neg hkey, ← hextra, ← hextra, rest_written hbeside hpieces]
      cases (rest keys fields).get? key <;> cases path <;> rfl
  · rfl

section Fields

variable {α : Type} {schema : Schema} {read : Json → Reading α} {write : α → Json}

theorem Carries.readAs (h : Carries schema read write) {j : Option Json} {value : Option α}
    (hread : ReadAs read j value) : Carried schema j (value.map write) := by
  cases j with
  | none =>
    cases hread
    exact carried_none schema
  | some j =>
    obtain ⟨value, hvalue, rfl⟩ := hread
    exact h j value hvalue

/-! ### Lists -/

/-- Items are read one by one, at their places. -/
theorem readAs_items {items : List Json} {values : List α}
    (h : List.Forall₂ (fun j value => read j = .ok value) items values) (i : Nat) :
    ReadAs read items[i]? values[i]? := by
  induction h generalizing i with
  | nil => simp [ReadAs]
  | cons hvalue _ ih =>
    cases i with
    | zero => exact ⟨_, hvalue, rfl⟩
    | succ i => exact ih i

theorem Carries.list (h : Carries schema read write) :
    Carries (.list schema) (list read) fun values => .arr (values.map write) := by
  intro j values hvalues
  cases j with
  | arr items =>
    rintro (_ | ⟨key | i, path⟩)
    · rfl
    · rfl
    · simp only [Option.bind_some, Schema.extra?_cons, Schema.child?, Schema.map_bind_extra?,
        List.getElem?_map]
      exact h.readAs (readAs_items (mapM_eq_ok_iff.1 hvalues) i) path
  | null | bool _ | num _ | str _ | obj _ => cases hvalues

/-! ### Collections -/

/-- Of entries with one key the last is read last. -/
theorem readAs_last {fields : List (String × Json)} {entries : Entries α}
    (h : List.Forall₂ (fun field e => (field.1, ·) <$> read field.2 = .ok e) fields entries)
    (key : String) : ReadAs read (Entries.last? fields key) (Entries.last? entries key) :=
  (readAs_of_forall₂ (List.rel_reverse h)).2 key

/-- Entries are carried over under their keys, with what the keys change in them. -/
theorem Carries.keyed {fill : String → α → α}
    (h : ∀ key, Carries schema read fun value => write (fill key value)) :
    Carries (.map schema) (keyed read)
      fun m => .obj ((m.map fill).entries.map fun e => (e.1, write e.2)) := by
  intro j m hm
  cases j with
  | obj fields =>
    obtain ⟨entries, hentries, rfl⟩ := map_eq_ok_iff.1 hm
    rintro (_ | ⟨key | i, path⟩)
    · rfl
    · have hasc := ((Keyed.ofList entries).map fill).ascending_entries_map write
      have hget : Entries.last?
          (((Keyed.ofList entries).map fill).entries.map fun e => (e.1, write e.2)) key =
          (Entries.last? entries key).map fun value => write (fill key value) := by
        rw [last?_of_ascending hasc, Keyed.get?_entries_map, Keyed.get?_map, Keyed.get?_ofList,
          Option.map_map]
        rfl
      simp only [Option.bind_some, Schema.extra?_cons, Schema.child?, Form.fields?_given,
        Form.fields?_written hasc, Schema.map_bind_extra?, hget]
      exact (h key).readAs (readAs_last (mapM_eq_ok_iff.1 hentries) key) path
    · rfl
  | null | bool _ | num _ | str _ | arr _ => cases hm

/-- A wrapper carries over what it wraps. -/
theorem Carries.wrapper (h : Carries schema read write) {key : String} (default : α)
    (hdefault : ∀ path, Schema.extra? .written path (some schema) (write default) = none) :
    Carries (.wrapper key schema) (record [key] fun fields => orElse default read fields key)
      fun value => Layout.ascending [(key, write value)] := by
  have hfields : ∀ {fields value}, orElse default read fields key = .ok value →
      Carried schema (Entries.get? fields key) (some (write value)) := by
    intro fields value hvalue
    rw [orElse] at hvalue
    split at hvalue
    · rename_i hnone
      cases pure_eq_ok_iff.1 hvalue
      rw [hnone]
      exact fun path => (hdefault path).symm
    · rename_i j hj
      rw [hj]
      exact h j value hvalue
  intro j value hvalue
  have hinside : Carried schema (Form.inside? key .given j) (some (write value)) := by
    cases j with
    | obj fields => exact hfields hvalue
    | arr items =>
      obtain ⟨read, hread, hlength⟩ := bind_eq_ok_iff.1 hvalue
      split at hlength
      · cases pure_eq_ok_iff.1 hlength
        have hitems := hfields hread
        cases items with
        | nil => exact hitems
        | cons item items => simpa [Entries.get?, Form.inside?] using hitems
      · cases hlength
    | null | bool _ | num _ | str _ => cases hvalue
  have hwritten : Form.inside? key .written (Layout.ascending [(key, write value)]) =
      some (write value) := by
    rw [Form.inside?_written, Form.fields?_ascending, Option.bind_some, Entries.get?_sorted]
    simp [Entries.get?]
  rintro (_ | ⟨name | i, path⟩)
  · rfl
  · simp only [Option.bind_some, Schema.extra?_cons, Schema.child?, hwritten]
    by_cases hname : name = key
    · rw [if_pos hname, if_pos hname, Schema.map_bind_extra?, Schema.map_bind_extra?]
      exact hinside path
    · rw [if_neg hname, if_neg hname]
      rfl
  · rfl

theorem Carries.collection {key : String} {fill : String → α → α}
    (h : ∀ key, Carries schema read fun value => write (fill key value)) :
    Carries (.collection key schema) (Read.collection key read)
      fun m => Write.collection .ascending key write (m.map fill) := by
  refine (Carries.keyed h).wrapper ∅ ?_
  rintro (_ | ⟨key | i, path⟩) <;> rfl

/-! ### Fields -/

variable {fields : List (String × Json)} {key : String}

/-- A field that may be left out is carried over; null leaves it out. -/
theorem Carries.optional (h : Carries schema read write) {value : Option α}
    (hvalue : Read.optional read fields key = .ok value) :
    Carried schema (Entries.get? fields key) (value.map write) := by
  rw [Read.optional] at hvalue
  split at hvalue
  · rename_i hnone
    cases pure_eq_ok_iff.1 hvalue
    rw [hnone]
    exact carried_none schema
  · rename_i hnull
    cases pure_eq_ok_iff.1 hvalue
    rw [hnull]
    exact fun path => Schema.extra?_null .given path schema
  · rename_i j _ hj
    obtain ⟨value, hread, rfl⟩ := map_eq_ok_iff.1 hvalue
    rw [hj]
    exact h j value hread

/-- A collection that may be left out is carried over, with what its keys change in it. -/
theorem Carries.entries {name : String} {fill : String → α → α}
    (h : ∀ key, Carries schema read fun value => write (fill key value)) {c : Option (Keyed α)}
    (hc : Read.optional (Read.collection name read) fields key = .ok c) :
    Carried (.collection name schema) (Entries.get? fields key)
      (c.map (Write.collection .ascending name write ∘ (·.map fill))) :=
  (Carries.collection h).optional hc

/-- A list that is left out when empty is carried over. -/
theorem Carries.nonempty (h : Carries schema read write) {values : List α}
    (hvalues : orElse [] (Read.list read) fields key = .ok values) :
    Carried (.list schema) (Entries.get? fields key)
      (if values ≠ [] then some (.arr (values.map write)) else none) := by
  rw [orElse] at hvalues
  split at hvalues
  · rename_i hnone
    cases pure_eq_ok_iff.1 hvalues
    rw [hnone]
    exact carried_none _
  · rename_i j hj
    rw [hj]
    intro path
    rw [h.list j values hvalues path]
    by_cases hempty : values = []
    · subst hempty
      simp
    · rw [if_pos hempty]

end Fields

/-- Only objects have fields. -/
theorem fields_eq_ok_iff {j : Json} {fields : List (String × Json)} :
    Read.fields j = .ok fields ↔ j = .obj fields := by
  cases j <;> simp [Read.fields, pure, Except.pure, throw, throwThe, MonadExceptOf.throw]

/-! ## Definitions -/

theorem Param.carries : Carries Param.schema Param.ofJson (Param.toJson .ascending) := by
  intro j p h
  simp only [Param.ofJson, bind_eq_ok_iff, pure_eq_ok_iff, fields_eq_ok_iff] at h
  obtain ⟨fields, rfl, _, -, _, -, _, -, _, -, rfl⟩ := h
  exact carried_record (by simp [Param.keys, TypeRef.keys]) (by simp)

theorem Signature.carries :
    Carries Signature.schema Signature.ofJson (Signature.toJson .ascending) := by
  intro j s h
  simp only [Signature.ofJson, bind_eq_ok_iff, pure_eq_ok_iff, fields_eq_ok_iff] at h
  obtain ⟨fields, rfl, _, -, params, hparams, _, -, rfl⟩ := h
  refine carried_record (by simp [Signature.keys, TypeRef.keys]) ?_
  simpa using Param.carries.nonempty hparams

theorem Constant.carries (name : Constant → String) :
    Carries Constant.schema Constant.ofJson
      fun c => Constant.toJson .ascending { c with name := name c } := by
  intro j c h
  simp only [Constant.ofJson, bind_eq_ok_iff, pure_eq_ok_iff, fields_eq_ok_iff] at h
  obtain ⟨fields, rfl, _, -, _, -, _, -, _, -, _, -, rfl⟩ := h
  exact carried_record (by simp [Constant.keys, TypeRef.keys]) (by simp)

theorem Method.carries (name : Method → String) :
    Carries Method.schema Method.ofJson
      fun m => Method.toJson .ascending { m with name := name m } := by
  intro j m h
  simp only [Method.ofJson, bind_eq_ok_iff, pure_eq_ok_iff, fields_eq_ok_iff] at h
  obtain ⟨fields, rfl, _, -, _, -, _, -, _, -, signatures, hsignatures, _, -, rfl⟩ := h
  refine carried_record (by simp [Method.keys]) ?_
  simpa using Signature.carries.nonempty hsignatures

theorem Property.carries (name : Property → String) :
    Carries Property.schema Property.ofJson
      fun p => Property.toJson .ascending { p with name := name p } := by
  intro j p h
  simp only [Property.ofJson, bind_eq_ok_iff, pure_eq_ok_iff, fields_eq_ok_iff] at h
  obtain ⟨fields, rfl, _, -, _, -, _, -, _, -, _, -, _, -, _, -, rfl⟩ := h
  exact carried_record (by simp [Property.keys, TypeRef.keys]) (by simp)

theorem Constructor.carries :
    Carries Constructor.schema Constructor.ofJson (Constructor.toJson .ascending) := by
  intro j c h
  simp only [Constructor.ofJson, bind_eq_ok_iff, pure_eq_ok_iff, fields_eq_ok_iff] at h
  obtain ⟨fields, rfl, _, -, _, -, signatures, hsignatures, rfl⟩ := h
  refine carried_record (by simp [Constructor.keys]) ?_
  simpa using Signature.carries.nonempty hsignatures

theorem IteratorDecl.carries :
    Carries IteratorDecl.schema IteratorDecl.ofJson (IteratorDecl.toJson .ascending) := by
  intro j i h
  simp only [IteratorDecl.ofJson, bind_eq_ok_iff, pure_eq_ok_iff, fields_eq_ok_iff] at h
  obtain ⟨fields, rfl, _, -, _, -, _, -, rfl⟩ := h
  exact carried_record (by simp [IteratorDecl.keys]) (by simp)

theorem Member.carries (name : Member → String) :
    Carries Member.schema Member.ofJson
      fun m => Member.toJson .ascending { m with name := name m } := by
  intro j m h
  simp only [Member.ofJson, bind_eq_ok_iff, pure_eq_ok_iff, fields_eq_ok_iff] at h
  obtain ⟨fields, rfl, _, -, _, -, _, -, _, -, _, -, rfl⟩ := h
  exact carried_record (by simp [Member.keys, TypeRef.keys]) (by simp)

/-- The members of an interface get their names from their keys here, whatever its own name. -/
theorem Interface.carries (name : Interface → String) :
    Carries Interface.schema Interface.ofJson
      fun i => Interface.toJson .ascending { i.fillMemberNames with name := name i } := by
  intro j i h
  simp only [Interface.ofJson, bind_eq_ok_iff, pure_eq_ok_iff, fields_eq_ok_iff] at h
  obtain ⟨fields, rfl, _, -, constants, hconstants, constructor, hconstructor, _, -, _, -, _, -, _, -,
    iterator, hiterator, methods, hmethods, _, -, _, -, properties, hproperties, rfl⟩ := h
  have hc := Carries.entries (fun key => Constant.carries (nameOr key ·.name)) hconstants
  have hm := Carries.entries (fun key => Method.carries (nameOr key ·.name)) hmethods
  have hp := Carries.entries (fun key => Property.carries (nameOr key ·.name)) hproperties
  refine carried_record (by simp [Interface.keys]) ?_
  simpa [fillMemberNames] using ⟨hc, hm, hp, Constructor.carries.optional hconstructor,
    IteratorDecl.carries.optional hiterator⟩

theorem Dictionary.carries (key : String) :
    Carries Dictionary.schema Dictionary.ofJson
      fun d => Dictionary.toJson .ascending (d.fillNames key) := by
  intro j d h
  simp only [Dictionary.ofJson, bind_eq_ok_iff, pure_eq_ok_iff, fields_eq_ok_iff] at h
  obtain ⟨fields, rfl, _, -, _, -, members, hmembers, _, -, rfl⟩ := h
  have hm := Carries.entries (fun key => Member.carries (nameOr key ·.name)) hmembers
  refine carried_record (by simp [Dictionary.keys]) ?_
  simpa [fillNames, fillMemberNames] using hm

theorem Enumeration.carries (name : Enumeration → String) :
    Carries Enumeration.schema Enumeration.ofJson
      fun e => Enumeration.toJson .ascending { e with name := name e } := by
  intro j e h
  simp only [Enumeration.ofJson, bind_eq_ok_iff, pure_eq_ok_iff, fields_eq_ok_iff] at h
  obtain ⟨fields, rfl, _, -, _, -, _, -, rfl⟩ := h
  exact carried_record (by simp [Enumeration.keys]) (by simp)

theorem CallbackFunction.carries (name : CallbackFunction → String) :
    Carries CallbackFunction.schema CallbackFunction.ofJson
      fun f => CallbackFunction.toJson .ascending { f with name := name f } := by
  intro j f h
  simp only [CallbackFunction.ofJson, bind_eq_ok_iff, pure_eq_ok_iff, fields_eq_ok_iff] at h
  obtain ⟨fields, rfl, _, -, _, -, signatures, hsignatures, rfl⟩ := h
  refine carried_record (by simp [CallbackFunction.keys]) ?_
  simpa using Signature.carries.nonempty hsignatures

theorem Typedef.carries : Carries Typedef.schema Typedef.ofJson (Typedef.toJson .ascending) := by
  intro j t h
  simp only [Typedef.ofJson, bind_eq_ok_iff, pure_eq_ok_iff, fields_eq_ok_iff] at h
  obtain ⟨fields, rfl, _, -, _, -, _, -, rfl⟩ := h
  exact carried_record (by simp [Typedef.keys, TypeRef.keys]) (by simp)

/-- **A graph carries everything without a meaning over**, at every depth. -/
theorem Graph.carries : Carries Graph.schema Graph.ofJson Graph.toValue := by
  intro j g h
  obtain ⟨raw, hraw, rfl⟩ := map_eq_ok_iff.1 h
  simp only [Graph.ofRawJson, bind_eq_ok_iff, pure_eq_ok_iff, fields_eq_ok_iff] at hraw
  obtain ⟨fields, rfl, functions, hfunctions, callbacks, hcallbacks, dictionaries, hdictionaries,
    enums, henums, interfaces, hinterfaces, mixins, hmixins, namespaces, hnamespaces, typedefs,
    htypedefs, rfl⟩ := hraw
  have hi := fun key => Interface.carries (nameOr key ·.name)
  have hf := Carries.entries (fun key => CallbackFunction.carries (nameOr key ·.name)) hfunctions
  have he := Carries.entries (fun key => Enumeration.carries (nameOr key ·.name)) henums
  have hn := (Interface.carries (·.name)).list.optional hnamespaces
  have ht := (Typedef.carries.list.wrapper [] (by simp)).optional htypedefs
  refine carried_record (by simp [Graph.fieldKeys]) ?_
  simpa [fillNames, Function.comp_def] using ⟨hf, Carries.entries hi hcallbacks,
    Carries.entries Dictionary.carries hdictionaries, he, Carries.entries hi hinterfaces,
    Carries.entries hi hmixins, ht, hn⟩

end IdlDecls
