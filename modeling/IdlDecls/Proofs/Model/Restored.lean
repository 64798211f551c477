import IdlDecls.Proofs.Model.WrittenTypes

/-!
# Definitions in their written form

Writing a definition and reading it again gives the same definition. What this needs is said by one
predicate for each type (`Tidy`): extra fields stand beside the fields, at every depth. Everything that
is read is tidy (`tidy_of_ofJson`), and what is tidy comes back (`restores`), as long as no context of an
exposure holds a blank and no value is null, which is read as nothing.
-/

namespace IdlDecls

open Read

/-! ## What reading yields -/

section Yields

variable {ι α : Type} {P : α → Prop}

/-- Whatever is read has a property. -/
def Yields (read : ι → Reading α) (P : α → Prop) : Prop :=
  ∀ j value, read j = .ok value → P value

theorem Yields.and {Q : α → Prop} {read : ι → Reading α} (hP : Yields read P) (hQ : Yields read Q) :
    Yields read fun value => P value ∧ Q value :=
  fun j value h => ⟨hP j value h, hQ j value h⟩

theorem Yields.mapM {read : ι → Reading α} (h : Yields read P) {items : List ι} {values : List α}
    (hvalues : items.mapM read = .ok values) : ∀ v ∈ values, P v := by
  intro v hv
  obtain ⟨j, -, hread⟩ := exists_of_forall₂ (mapM_eq_ok_iff.1 hvalues) v hv
  exact h j v hread

variable {read : Json → Reading α}

theorem Yields.list (h : Yields read P) : Yields (list read) fun values => ∀ v ∈ values, P v := by
  intro j values hvalues
  cases j with
  | arr items => exact h.mapM hvalues
  | null | bool _ | num _ | str _ | obj _ => cases hvalues

theorem Yields.record {keys : List String} {read : List (String × Json) → Reading α}
    (h : Yields read P) : Yields (record keys read) P := by
  intro j value hvalue
  cases j with
  | obj fields => exact h fields value hvalue
  | arr items =>
    obtain ⟨v, hv, hlength⟩ := bind_eq_ok_iff.1 hvalue
    split at hlength
    · cases pure_eq_ok_iff.1 hlength
      exact h _ _ hv
    · cases hlength
  | null | bool _ | num _ | str _ => cases hvalue

variable {fields : List (String × Json)} {key : String}

theorem Yields.optional (h : Yields read P) {value : Option α}
    (hvalue : Read.optional read fields key = .ok value) : ∀ v ∈ value, P v := by
  rw [Read.optional] at hvalue
  split at hvalue
  · cases hvalue; simp
  · cases hvalue; simp
  · obtain ⟨v, hv, rfl⟩ := map_eq_ok_iff.1 hvalue
    simpa using h _ v hv

theorem Yields.orElse (h : Yields read P) {default value : α} (hdefault : P default)
    (hvalue : Read.orElse default read fields key = .ok value) : P value := by
  rw [Read.orElse] at hvalue
  split at hvalue
  · cases hvalue; exact hdefault
  · exact h _ value hvalue

theorem Yields.keyed (h : Yields read P) :
    Yields (keyed read) fun m => ∀ name v, m.get? name = some v → P v := by
  intro j m hm name v hv
  cases j with
  | obj fields =>
    obtain ⟨entries, hentries, rfl⟩ := map_eq_ok_iff.1 hm
    have hentry : Yields (fun field : String × Json => (field.1, ·) <$> read field.2)
        fun e => P e.2 := by
      intro field e he
      obtain ⟨v, hv, rfl⟩ := map_eq_ok_iff.1 he
      exact h field.2 v hv
    rw [Keyed.get?_ofList] at hv
    exact hentry.mapM hentries (name, v) (by simpa using Entries.mem_of_get? hv)
  | null | bool _ | num _ | str _ | arr _ => cases hm

theorem Yields.collection (h : Yields read P) {field : String} {c : Option (Keyed α)}
    (hc : Read.optional (collection key read) fields field = .ok c) :
    ∀ name v, lookup? c name = some v → P v := by
  have hcollection : Yields (Read.collection key read) fun m => ∀ name v, m.get? name = some v → P v :=
    Yields.record fun fields m hm => h.keyed.orElse (fun _ _ hv => by cases hv) hm
  intro name v hv
  cases c with
  | none => cases hv
  | some m => exact hcollection.optional hc m rfl name v hv

end Yields

/-! ## Signatures -/

/-- The keys of the fields of a parameter. -/
def Param.keys : List String := ["name", "optional", "variadic"] ++ TypeRef.keys

/-- A parameter as it is read. -/
structure Param.Tidy (p : Param) : Prop where
  extra : p.extra.Beside Param.keys

theorem Param.tidy_of_ofJson : Yields Param.ofJson Param.Tidy := by
  intro j p h
  simp only [Param.ofJson, bind_eq_ok_iff, pure_eq_ok_iff] at h
  obtain ⟨fields, -, _, -, _, -, _, -, _, -, rfl⟩ := h
  exact ⟨Extra.beside_rest _ fields⟩

theorem Param.restores {p : Param} (h : p.Tidy) :
    Restores Param.ofJson (Param.toJson .ascending) p := by
  refine ⟨nofun, ?_⟩
  simp only [Param.ofJson, bind_eq_ok_iff, pure_eq_ok_iff]
  refine ⟨_, rfl, p.name, orElse_written (restores_text _) ?_, p.optional, flag_written ?_, p.variadic,
    flag_written ?_, p.type, TypeRef.ofFields_written ⟨?_, ?_, ?_⟩,
    congrArg (fun extra => { p with extra }) (rest_written h.extra ?keys)⟩
  case keys => simp [Param.keys, TypeRef.keys]
  all_goals
    rw [get?_written h.extra (by decide)]
    simp

/-- The keys of the fields of a signature. -/
def Signature.keys : List String := ["param", "deprecated"] ++ TypeRef.keys

/-- A signature as it is read. -/
structure Signature.Tidy (s : Signature) : Prop where
  params : ∀ p ∈ s.params, p.Tidy
  extra : s.extra.Beside Signature.keys

theorem Signature.tidy_of_ofJson : Yields Signature.ofJson Signature.Tidy := by
  intro j s h
  simp only [Signature.ofJson, bind_eq_ok_iff, pure_eq_ok_iff] at h
  obtain ⟨fields, -, _, -, params, hparams, _, -, rfl⟩ := h
  exact ⟨Param.tidy_of_ofJson.list.orElse (by simp) hparams, Extra.beside_rest _ fields⟩

theorem Signature.restores {s : Signature} (h : s.Tidy) :
    Restores Signature.ofJson (Signature.toJson .ascending) s := by
  refine ⟨nofun, ?_⟩
  simp only [Signature.ofJson, bind_eq_ok_iff, pure_eq_ok_iff]
  refine ⟨_, rfl, s.deprecated, flag_written ?_, s.params,
    nonempty_written (fun p hp => Param.restores (h.params p hp)) ?_, s.type,
    TypeRef.ofFields_written ⟨?_, ?_, ?_⟩,
    congrArg (fun extra => { s with extra }) (rest_written h.extra ?keys)⟩
  case keys => simp [Signature.keys, TypeRef.keys]
  all_goals
    rw [get?_written h.extra (by decide)]
    simp

/-! ## Members of interfaces -/

/-- The keys of the fields of a constant. -/
def Constant.keys : List String := ["name", "value", "comment", "exposed"] ++ TypeRef.keys

/-- A constant as it is read. -/
structure Constant.Tidy (c : Constant) : Prop where
  extra : c.extra.Beside Constant.keys

/-- A field that holds JSON without a meaning never holds null. -/
theorem ne_null_of_optional {fields : List (String × Json)} {key : String} {value : Option Json}
    (h : Read.optional pure fields key = .ok value) : ∀ j ∈ value, j ≠ .null := by
  rw [Read.optional] at h
  split at h
  · cases h; simp
  · cases h; simp
  · rename_i j hne _
    cases h
    simpa using hne

theorem Constant.tidy_of_ofJson : Yields Constant.ofJson Constant.Tidy := by
  intro j c h
  simp only [Constant.ofJson, bind_eq_ok_iff, pure_eq_ok_iff] at h
  obtain ⟨fields, -, _, -, _, -, _, -, _, -, _, -, rfl⟩ := h
  exact ⟨Extra.beside_rest _ fields⟩

theorem Constant.ne_null_of_ofJson : Yields Constant.ofJson fun c => ∀ j ∈ c.value, j ≠ .null := by
  intro j c h
  simp only [Constant.ofJson, bind_eq_ok_iff, pure_eq_ok_iff] at h
  obtain ⟨fields, -, _, -, _, -, _, -, value, hvalue, _, -, rfl⟩ := h
  exact ne_null_of_optional hvalue

theorem Constant.restores {c : Constant} (h : c.Tidy) (hplain : ∀ e ∈ c.exposed, e.Plain)
    (hvalue : ∀ j ∈ c.value, j ≠ .null) :
    Restores Constant.ofJson (Constant.toJson .ascending) c := by
  refine ⟨nofun, ?_⟩
  simp only [Constant.ofJson, bind_eq_ok_iff, pure_eq_ok_iff]
  refine ⟨_, rfl, c.comment, optional_written (fun s _ => restores_text s) ?_, c.exposed,
    optional_written (fun e he => restores_exposure (hplain e he)) ?_, c.name,
    orElse_written (restores_text _) ?_, c.value,
    optional_written (fun j hj => restores_literal (hvalue j hj)) ?_, c.type,
    TypeRef.ofFields_written ⟨?_, ?_, ?_⟩,
    congrArg (fun extra => { c with extra }) (rest_written h.extra ?keys)⟩
  case keys => simp [Constant.keys, TypeRef.keys]
  all_goals
    rw [get?_written h.extra (by decide)]
    simp

/-- The keys of the fields of a method. -/
def Method.keys : List String := ["name", "signature", "static", "comment", "exposed", "deprecated"]

/-- A method as it is read. -/
structure Method.Tidy (m : Method) : Prop where
  signatures : ∀ s ∈ m.signatures, s.Tidy
  extra : m.extra.Beside Method.keys

theorem Method.tidy_of_ofJson : Yields Method.ofJson Method.Tidy := by
  intro j m h
  simp only [Method.ofJson, bind_eq_ok_iff, pure_eq_ok_iff] at h
  obtain ⟨fields, -, _, -, _, -, _, -, _, -, signatures, hsignatures, _, -, rfl⟩ := h
  exact ⟨Signature.tidy_of_ofJson.list.orElse (by simp) hsignatures, Extra.beside_rest _ fields⟩

theorem Method.restores {m : Method} (h : m.Tidy) (hplain : ∀ e ∈ m.exposed, e.Plain) :
    Restores Method.ofJson (Method.toJson .ascending) m := by
  refine ⟨nofun, ?_⟩
  simp only [Method.ofJson, bind_eq_ok_iff, pure_eq_ok_iff]
  refine ⟨_, rfl, m.comment, optional_written (fun s _ => restores_text s) ?_, m.deprecated,
    flag_written ?_, m.exposed, optional_written (fun e he => restores_exposure (hplain e he)) ?_,
    m.name, orElse_written (restores_text _) ?_, m.signatures,
    nonempty_written (fun s hs => Signature.restores (h.signatures s hs)) ?_, m.isStatic,
    flag_written ?_, congrArg (fun extra => { m with extra }) (rest_written h.extra ?keys)⟩
  case keys => simp [Method.keys]
  all_goals
    rw [get?_written h.extra (by decide)]
    simp

/-- The keys of the fields of a property. -/
def Property.keys : List String :=
  ["name", "read-only", "static", "comment", "exposed", "deprecated"] ++ TypeRef.keys

/-- A property as it is read. -/
structure Property.Tidy (p : Property) : Prop where
  extra : p.extra.Beside Property.keys

theorem Property.tidy_of_ofJson : Yields Property.ofJson Property.Tidy := by
  intro j p h
  simp only [Property.ofJson, bind_eq_ok_iff, pure_eq_ok_iff] at h
  obtain ⟨fields, -, _, -, _, -, _, -, _, -, _, -, _, -, _, -, rfl⟩ := h
  exact ⟨Extra.beside_rest _ fields⟩

theorem Property.restores {p : Property} (h : p.Tidy) (hplain : ∀ e ∈ p.exposed, e.Plain) :
    Restores Property.ofJson (Property.toJson .ascending) p := by
  refine ⟨nofun, ?_⟩
  simp only [Property.ofJson, bind_eq_ok_iff, pure_eq_ok_iff]
  refine ⟨_, rfl, p.comment, optional_written (fun s _ => restores_text s) ?_, p.deprecated,
    flag_written ?_, p.exposed, optional_written (fun e he => restores_exposure (hplain e he)) ?_,
    p.name, orElse_written (restores_text _) ?_, p.readOnly, flag_written ?_, p.isStatic,
    flag_written ?_, p.type, TypeRef.ofFields_written ⟨?_, ?_, ?_⟩,
    congrArg (fun extra => { p with extra }) (rest_written h.extra ?keys)⟩
  case keys => simp [Property.keys, TypeRef.keys]
  all_goals
    rw [get?_written h.extra (by decide)]
    simp

/-- The keys of the fields of a constructor. -/
def Constructor.keys : List String := ["signature", "comment", "exposed"]

/-- A constructor as it is read. -/
structure Constructor.Tidy (c : Constructor) : Prop where
  signatures : ∀ s ∈ c.signatures, s.Tidy
  extra : c.extra.Beside Constructor.keys

theorem Constructor.tidy_of_ofJson : Yields Constructor.ofJson Constructor.Tidy := by
  intro j c h
  simp only [Constructor.ofJson, bind_eq_ok_iff, pure_eq_ok_iff] at h
  obtain ⟨fields, -, _, -, _, -, signatures, hsignatures, rfl⟩ := h
  exact ⟨Signature.tidy_of_ofJson.list.orElse (by simp) hsignatures, Extra.beside_rest _ fields⟩

theorem Constructor.restores {c : Constructor} (h : c.Tidy) (hplain : ∀ e ∈ c.exposed, e.Plain) :
    Restores Constructor.ofJson (Constructor.toJson .ascending) c := by
  refine ⟨nofun, ?_⟩
  simp only [Constructor.ofJson, bind_eq_ok_iff, pure_eq_ok_iff]
  refine ⟨_, rfl, c.comment, optional_written (fun s _ => restores_text s) ?_, c.exposed,
    optional_written (fun e he => restores_exposure (hplain e he)) ?_, c.signatures,
    nonempty_written (fun s hs => Signature.restores (h.signatures s hs)) ?_,
    congrArg (fun extra => { c with extra }) (rest_written h.extra ?keys)⟩
  case keys => simp [Constructor.keys]
  all_goals
    rw [get?_written h.extra (by decide)]
    simp

/-- The keys of the fields of an iterator declaration. -/
def IteratorDecl.keys : List String := ["kind", "type", "readonly"]

/-- An iterator declaration as it is read. -/
structure IteratorDecl.Tidy (i : IteratorDecl) : Prop where
  extra : i.extra.Beside IteratorDecl.keys

theorem IteratorDecl.tidy_of_ofJson : Yields IteratorDecl.ofJson IteratorDecl.Tidy := by
  intro j i h
  simp only [IteratorDecl.ofJson, bind_eq_ok_iff, pure_eq_ok_iff] at h
  obtain ⟨fields, -, _, -, _, -, _, -, rfl⟩ := h
  exact ⟨Extra.beside_rest _ fields⟩

theorem IteratorDecl.restores {i : IteratorDecl} (h : i.Tidy) :
    Restores IteratorDecl.ofJson (IteratorDecl.toJson .ascending) i := by
  refine ⟨nofun, ?_⟩
  simp only [IteratorDecl.ofJson, bind_eq_ok_iff, pure_eq_ok_iff]
  refine ⟨_, rfl, i.kind, required_written (restores_text _) ?_, i.readOnly, flag_written ?_, i.types,
    orElse_written (restores_list fun type _ => restores_typeRef type) ?_,
    congrArg (fun extra => { i with extra }) (rest_written h.extra ?keys)⟩
  case keys => simp [IteratorDecl.keys]
  all_goals
    rw [get?_written h.extra (by decide)]
    simp

/-! ## Other definitions -/

/-- The keys of the fields of a dictionary member. -/
def Member.keys : List String := ["name", "required", "default", "comment"] ++ TypeRef.keys

/-- A dictionary member as it is read. -/
structure Member.Tidy (m : Member) : Prop where
  extra : m.extra.Beside Member.keys

theorem Member.tidy_of_ofJson : Yields Member.ofJson Member.Tidy := by
  intro j m h
  simp only [Member.ofJson, bind_eq_ok_iff, pure_eq_ok_iff] at h
  obtain ⟨fields, -, _, -, _, -, _, -, _, -, _, -, rfl⟩ := h
  exact ⟨Extra.beside_rest _ fields⟩

theorem Member.ne_null_of_ofJson : Yields Member.ofJson fun m => ∀ j ∈ m.default, j ≠ .null := by
  intro j m h
  simp only [Member.ofJson, bind_eq_ok_iff, pure_eq_ok_iff] at h
  obtain ⟨fields, -, _, -, default, hdefault, _, -, _, -, _, -, rfl⟩ := h
  exact ne_null_of_optional hdefault

theorem Member.restores {m : Member} (h : m.Tidy) (hdefault : ∀ j ∈ m.default, j ≠ .null) :
    Restores Member.ofJson (Member.toJson .ascending) m := by
  refine ⟨nofun, ?_⟩
  simp only [Member.ofJson, bind_eq_ok_iff, pure_eq_ok_iff]
  refine ⟨_, rfl, m.comment, optional_written (fun s _ => restores_text s) ?_, m.default,
    optional_written (fun j hj => restores_literal (hdefault j hj)) ?_, m.name,
    orElse_written (restores_text _) ?_, m.required, flag_written ?_, m.type,
    TypeRef.ofFields_written ⟨?_, ?_, ?_⟩,
    congrArg (fun extra => { m with extra }) (rest_written h.extra ?keys)⟩
  case keys => simp [Member.keys, TypeRef.keys]
  all_goals
    rw [get?_written h.extra (by decide)]
    simp

/-- The keys of the fields of a dictionary. -/
def Dictionary.keys : List String := ["name", "extends", "comment", "members"]

/-- A dictionary as it is read. -/
structure Dictionary.Tidy (d : Dictionary) : Prop where
  members : ∀ name m, lookup? d.members name = some m → m.Tidy
  extra : d.extra.Beside Dictionary.keys

theorem Dictionary.tidy_of_ofJson : Yields Dictionary.ofJson Dictionary.Tidy := by
  intro j d h
  simp only [Dictionary.ofJson, bind_eq_ok_iff, pure_eq_ok_iff] at h
  obtain ⟨fields, -, _, -, _, -, members, hmembers, _, -, rfl⟩ := h
  exact ⟨Member.tidy_of_ofJson.collection hmembers, Extra.beside_rest _ fields⟩

/-- Every default value in a dictionary. -/
def Dictionary.literals (d : Dictionary) : List Json :=
  (valuesOf d.members).filterMap (·.default)

theorem Dictionary.forall_mem_literals {d : Dictionary} {P : Json → Prop} :
    (∀ j ∈ d.literals, P j) ↔
      ∀ name m, lookup? d.members name = some m → ∀ j ∈ m.default, P j := by
  simp only [literals, List.forall_mem_filterMap, forall_mem_valuesOf, Option.mem_def]

theorem Dictionary.ne_null_of_ofJson : Yields Dictionary.ofJson fun d => ∀ j ∈ d.literals, j ≠ .null := by
  intro j d h
  simp only [Dictionary.ofJson, bind_eq_ok_iff, pure_eq_ok_iff] at h
  obtain ⟨fields, -, _, -, _, -, members, hmembers, _, -, rfl⟩ := h
  exact Dictionary.forall_mem_literals.2 (Member.ne_null_of_ofJson.collection hmembers)

theorem Dictionary.restores {d : Dictionary} (h : d.Tidy) (hliterals : ∀ j ∈ d.literals, j ≠ .null) :
    Restores Dictionary.ofJson (Dictionary.toJson .ascending) d := by
  refine ⟨nofun, ?_⟩
  simp only [Dictionary.ofJson, bind_eq_ok_iff, pure_eq_ok_iff]
  refine ⟨_, rfl, d.comment, optional_written (fun s _ => restores_text s) ?_, d.parent,
    optional_written (fun s _ => restores_text s) ?_, d.members,
    collection_written (fun name m hm => Member.restores (h.members name m hm)
      (Dictionary.forall_mem_literals.1 hliterals name m hm)) ?_, d.name,
    orElse_written (restores_text _) ?_,
    congrArg (fun extra => { d with extra }) (rest_written h.extra ?keys)⟩
  case keys => simp [Dictionary.keys]
  all_goals
    rw [get?_written h.extra (by decide)]
    simp

/-- The keys of the fields of an enumeration. -/
def Enumeration.keys : List String := ["name", "value", "comment"]

/-- An enumeration as it is read. -/
structure Enumeration.Tidy (e : Enumeration) : Prop where
  extra : e.extra.Beside Enumeration.keys

theorem Enumeration.tidy_of_ofJson : Yields Enumeration.ofJson Enumeration.Tidy := by
  intro j e h
  simp only [Enumeration.ofJson, bind_eq_ok_iff, pure_eq_ok_iff] at h
  obtain ⟨fields, -, _, -, _, -, _, -, rfl⟩ := h
  exact ⟨Extra.beside_rest _ fields⟩

theorem Enumeration.restores {e : Enumeration} (h : e.Tidy) :
    Restores Enumeration.ofJson (Enumeration.toJson .ascending) e := by
  refine ⟨nofun, ?_⟩
  simp only [Enumeration.ofJson, bind_eq_ok_iff, pure_eq_ok_iff]
  refine ⟨_, rfl, e.comment, optional_written (fun s _ => restores_text s) ?_, e.name,
    orElse_written (restores_text _) ?_, e.values,
    orElse_written (restores_list fun s _ => restores_text s) ?_,
    congrArg (fun extra => { e with extra }) (rest_written h.extra ?keys)⟩
  case keys => simp [Enumeration.keys]
  all_goals
    rw [get?_written h.extra (by decide)]
    simp

/-- The keys of the fields of a callback function. -/
def CallbackFunction.keys : List String := ["name", "signature", "comment"]

/-- A callback function as it is read. -/
structure CallbackFunction.Tidy (f : CallbackFunction) : Prop where
  signatures : ∀ s ∈ f.signatures, s.Tidy
  extra : f.extra.Beside CallbackFunction.keys

theorem CallbackFunction.tidy_of_ofJson : Yields CallbackFunction.ofJson CallbackFunction.Tidy := by
  intro j f h
  simp only [CallbackFunction.ofJson, bind_eq_ok_iff, pure_eq_ok_iff] at h
  obtain ⟨fields, -, _, -, _, -, signatures, hsignatures, rfl⟩ := h
  exact ⟨Signature.tidy_of_ofJson.list.orElse (by simp) hsignatures, Extra.beside_rest _ fields⟩

theorem CallbackFunction.restores {f : CallbackFunction} (h : f.Tidy) :
    Restores CallbackFunction.ofJson (CallbackFunction.toJson .ascending) f := by
  refine ⟨nofun, ?_⟩
  simp only [CallbackFunction.ofJson, bind_eq_ok_iff, pure_eq_ok_iff]
  refine ⟨_, rfl, f.comment, optional_written (fun s _ => restores_text s) ?_, f.name,
    orElse_written (restores_text _) ?_, f.signatures,
    nonempty_written (fun s hs => Signature.restores (h.signatures s hs)) ?_,
    congrArg (fun extra => { f with extra }) (rest_written h.extra ?keys)⟩
  case keys => simp [CallbackFunction.keys]
  all_goals
    rw [get?_written h.extra (by decide)]
    simp

/-- The keys of the fields of a type definition. -/
def Typedef.keys : List String := ["new-type", "comment"] ++ TypeRef.keys

/-- A type definition as it is read. -/
structure Typedef.Tidy (t : Typedef) : Prop where
  extra : t.extra.Beside Typedef.keys

theorem Typedef.tidy_of_ofJson : Yields Typedef.ofJson Typedef.Tidy := by
  intro j t h
  simp only [Typedef.ofJson, bind_eq_ok_iff, pure_eq_ok_iff] at h
  obtain ⟨fields, -, _, -, _, -, _, -, rfl⟩ := h
  exact ⟨Extra.beside_rest _ fields⟩

theorem Typedef.restores {t : Typedef} (h : t.Tidy) :
    Restores Typedef.ofJson (Typedef.toJson .ascending) t := by
  refine ⟨nofun, ?_⟩
  simp only [Typedef.ofJson, bind_eq_ok_iff, pure_eq_ok_iff]
  refine ⟨_, rfl, t.comment, optional_written (fun s _ => restores_text s) ?_, t.name,
    orElse_written (restores_text _) ?_, t.type, TypeRef.ofFields_written ⟨?_, ?_, ?_⟩,
    congrArg (fun extra => { t with extra }) (rest_written h.extra ?keys)⟩
  case keys => simp [Typedef.keys, TypeRef.keys]
  all_goals
    rw [get?_written h.extra (by decide)]
    simp

end IdlDecls
