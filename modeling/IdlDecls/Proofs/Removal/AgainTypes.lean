import IdlDecls.Proofs.Removal.AgainFields

/-!
# Definitions pruned again

What a template leaves of a written type reference is a written type reference, at any depth
(`TypeRef.exists_writtenIn`). With that every member and every definition is pruned again field by
field. Members and definitions that stand under keys have their names filled in from these
(`AgainAs`), whether the names were lost or not.
-/

namespace IdlDecls

open Read

/-! ## Type references -/

theorem TypeRef.listToJson_eq_map (types : List TypeRef) :
    TypeRef.listToJson .ascending types = types.map (TypeRef.toJson .ascending) := by
  induction types with
  | nil => rw [TypeRef.listToJson, List.map_nil]
  | cons type rest ih =>
    rw [TypeRef.listToJson, ih, List.map_cons]
    rfl

/-- What is left of a list of references is a list of references. -/
theorem TypeRef.exists_list {said : Option Template} {types : List TypeRef} {kept : Json}
    (h : Pruned said (some (.arr (TypeRef.listToJson .ascending types))) (some kept)) :
    ∃ types', kept = .arr (TypeRef.listToJson .ascending types') := by
  obtain ⟨-, rfl⟩ := Pruned.array_iff.1 h
  refine ⟨types.filter (Template.keepsItem said ∘ TypeRef.toJson .ascending), ?_⟩
  rw [TypeRef.listToJson_eq_map, TypeRef.listToJson_eq_map, List.filter_map]

theorem TypeHead.exists_left {said : Option Template} {head : TypeHead} {kept : Json}
    (h : Pruned said (some (head.toJson .ascending)) (some kept)) :
    ∃ head' : TypeHead, kept = head'.toJson .ascending := by
  cases head with
  | named name =>
    rw [TypeHead.toJson] at h
    exact ⟨.named name, by rw [TypeHead.toJson, eq_of_pruned_text h]⟩
  | union members =>
    rw [TypeHead.toJson] at h
    obtain ⟨types, rfl⟩ := TypeRef.exists_list h
    exact ⟨.union types, by rw [TypeHead.toJson]⟩

/-- What is left of a part that may be absent. -/
theorem exists_map_of_pruned {α : Type} {said : Option Template} {write : α → Json}
    {value : Option α} {kept : Option Json}
    (hvalue : ∀ v ∈ value, ∀ j, Pruned said (some (write v)) (some j) → ∃ v', j = write v')
    (h : Pruned said (value.map write) kept) : ∃ value' : Option α, kept = value'.map write := by
  cases kept with
  | none => exact ⟨none, rfl⟩
  | some j =>
    cases value with
    | none => cases pruned_absent_iff.1 h
    | some v =>
      obtain ⟨v', rfl⟩ := hvalue v rfl j h
      exact ⟨some v', rfl⟩

/-- The fields of an object hold what is left of a type reference,
  where `said` tells what is said of
a key. -/
structure TypeRef.LeftIn (said : String → Option Template) (type : TypeRef)
    (left : List (String × Json)) : Prop where
  head : Pruned (said "type") (type.head.map (TypeHead.toJson .ascending))
    (Entries.get? left "type")
  arguments : Pruned (said "subtype") (type.arguments.map (TypeArguments.toJson .ascending))
    (Entries.get? left "subtype")
  nullable : Pruned (said "nullable") (type.nullable.map .bool) (Entries.get? left "nullable")

theorem exists_left_bool {said : Option Template} {b : Bool} {kept : Json}
    (h : Pruned said (some (.bool b)) (some kept)) : ∃ b', kept = .bool b' := by
  rcases said with _ | _ | _ | _
  · exact ⟨b, Option.some.inj (pruned_unsaid_iff.1 h)⟩
  · cases pruned_remove_iff.1 h
  · cases h
  · cases h

mutual

/-- **What is left of the fields of a type reference is the fields of one.** -/
theorem TypeRef.LeftIn.exists_writtenIn : ∀ {type : TypeRef} {said : String → Option Template}
    {left : List (String × Json)}, type.LeftIn said left → ∃ type' : TypeRef, type'.WrittenIn left
  | .mk head arguments nullable, said, left, h => by
    obtain ⟨head', hhead'⟩ := exists_map_of_pruned (fun _ _ _ => TypeHead.exists_left) h.head
    obtain ⟨nullable',
      hnullable'⟩ := exists_map_of_pruned (fun _ _ _ => exists_left_bool) h.nullable
    have harguments : ∀ a ∈ arguments, ∀ j,
        Pruned (said "subtype") (some (a.toJson .ascending)) (some j) →
          ∃ a' : TypeArguments, j = a'.toJson .ascending := by
      cases arguments with
      | none => nofun
      | some a =>
        rintro _ ⟨⟩ j hj
        exact TypeArguments.exists_left a hj
    obtain ⟨arguments', harguments'⟩ := exists_map_of_pruned harguments h.arguments
    exact ⟨⟨head', arguments', nullable'⟩, hhead', harguments', hnullable'⟩

theorem TypeArguments.exists_left : ∀ (arguments : TypeArguments) {said : Option Template}
    {kept : Json}, Pruned said (some (arguments.toJson .ascending)) (some kept) →
      ∃ arguments' : TypeArguments, kept = arguments'.toJson .ascending
  | .many types, said, kept, h => by
    rw [TypeArguments.toJson] at h
    obtain ⟨types', rfl⟩ := TypeRef.exists_list h
    exact ⟨.many types', by rw [TypeArguments.toJson]⟩
  | .one type, said, kept, h => by
    rw [TypeArguments.toJson] at h
    obtain ⟨left, hasc, hleft, hfields⟩ := Pruned.field (Entries.ascending_sorted _) h
    obtain rfl : kept = .obj left := by simpa using hleft
    have hwritten : ∀ (type : TypeRef) key,
        Entries.get? (Entries.sorted (type.fields .ascending)) key =
          Entries.last? (type.fields .ascending) key := fun _ _ => Entries.get?_sorted ..
    simp only [hwritten] at hfields
    have hleftIn : type.LeftIn (fun key => said.bind (·.at? key)) left :=
      ⟨by simpa using hfields "type", by simpa using hfields "subtype",
        by simpa using hfields "nullable"⟩
    obtain ⟨type', htype'⟩ := hleftIn.exists_writtenIn
    refine ⟨.one type', ?_⟩
    rw [TypeArguments.toJson, Layout.ascending]
    refine congrArg Json.obj (Entries.ext_get? hasc (Entries.ascending_sorted _) fun key => ?_)
    rw [hwritten, TypeRef.last?_fields]
    split
    · rename_i hkey
      rw [hkey, htype'.head]
    · split
      · rename_i hkey
        rw [hkey, htype'.arguments]
      · split
        · rename_i hkey
          rw [hkey, htype'.nullable]
        · -- a key that no part of the reference stands under has nothing to leave
          have hkept := hfields key
          rw [TypeRef.last?_fields, if_neg ‹_›, if_neg ‹_›, if_neg ‹_›] at hkept
          exact pruned_absent_iff.1 hkept

end

/-- The three fields of a type reference are pruned again, and read as the same reference. -/
structure TypeRef.Again (said : String → Option Template) (type : TypeRef) : Prop where
  head : ∃ kept, Pruned (said "type") (type.head.map (TypeHead.toJson .ascending)) kept
  arguments : ∃ kept,
    Pruned (said "subtype") (type.arguments.map (TypeArguments.toJson .ascending)) kept
  nullable : ∃ kept, Pruned (said "nullable") (type.nullable.map .bool) kept
  read : ∀ left, type.LeftIn said left → TypeRef.ofFields left = .ok type

theorem TypeRef.LeftIn.again {type result : TypeRef} {said : String → Option Template}
    {left : List (String × Json)} (h : type.LeftIn said left)
    (hread : TypeRef.ofFields left = .ok result) : result.Again said := by
  obtain ⟨type', hwritten⟩ := h.exists_writtenIn
  obtain rfl : type' = result :=
    Except.ok.inj ((TypeRef.ofFields_written hwritten).symm.trans hread)
  have hhead := hwritten.head ▸ h.head.again
  have harguments := hwritten.arguments ▸ h.arguments.again
  have hnullable := hwritten.nullable ▸ h.nullable.again
  refine ⟨⟨_, hhead⟩, ⟨_, harguments⟩, ⟨_, hnullable⟩, fun left' h' => TypeRef.ofFields_written ?_⟩
  exact ⟨h'.head.unique hhead, h'.arguments.unique harguments, h'.nullable.unique hnullable⟩

/-! ## Members -/

theorem again_typeRefs (types : List TypeRef) :
    AgainAs id (list TypeRef.ofJson) (fun types => .arr (types.map (TypeRef.toJson .ascending)))
      types :=
  again_restored fun type _ => restores_typeRef type

theorem Constant.again {c : Constant} (hc : c.Tidy) (key : String) :
    AgainAs (fun c => { c with name := nameOr key c.name }) Constant.ofJson
      (Constant.toJson .ascending) c := by
  intro said kept result hkept hread
  obtain ⟨left, rfl, hleft⟩ := hkept.written hc.extra
  simp only [Constant.ofJson, bind_eq_ok_iff, pure_eq_ok_iff] at hread
  obtain ⟨_, hfields, comment, hcomment, exposed, hexposed, name, hname, value, hvalue, type, htype,
    rfl⟩ := hread
  cases pure_eq_ok_iff.1 hfields
  have acomment := text_again (by simpa using hleft "comment" (by decide)) hcomment
  have aexposed := exposure_again (by simpa using hleft "exposed" (by decide)) hexposed
  have aname := name_again (nameOr_nameOr key) (by simpa using hleft "name" (by decide)) hname
  have avalue := literal_again (by simpa using hleft "value" (by decide)) hvalue
  have htypeLeft : c.type.LeftIn (fun key => said.bind (·.at? key)) left :=
    ⟨by simpa using hleft "type" (by decide), by simpa using hleft "subtype" (by decide),
      by simpa using hleft "nullable" (by decide)⟩
  have atype := htypeLeft.again htype
  refine hkept.record_again Constant.keys ?_ ?_ fun left' hrest hleft' => ?_
  · simp [Constant.keys, TypeRef.keys]
  · simp only [Constant.keys, TypeRef.keys, List.cons_append, List.nil_append, List.forall_mem_cons]
    exact ⟨by simpa using aname.pruned, by simpa using avalue.pruned,
      by simpa using acomment.pruned, by simpa using aexposed.pruned, by simpa using atype.head,
      by simpa using atype.arguments, by simpa using atype.nullable, List.forall_mem_nil _⟩
  · obtain ⟨name', hname', hfill⟩ := aname.read left' (by simpa using hleft' "name" (by decide))
    refine ⟨{ name := name', type, value, comment, exposed,
              extra := rest Constant.keys left' }, ?_, ?_⟩
    · simp only [Constant.ofJson, bind_eq_ok_iff, pure_eq_ok_iff]
      exact ⟨_, rfl, _, acomment.read left' (by simpa using hleft' "comment" (by decide)), _,
        aexposed.read left' (by simpa using hleft' "exposed" (by decide)), _, hname', _,
        avalue.read left' (by simpa using hleft' "value" (by decide)), _,
        atype.read left' ⟨by simpa using hleft' "type" (by decide),
          by simpa using hleft' "subtype" (by decide),
          by simpa using hleft' "nullable" (by decide)⟩, rfl⟩
    · simp only [hrest, hfill]
      rfl

theorem Method.again {m : Method} (hm : m.Tidy) (key : String) :
    AgainAs (fun m => { m with name := nameOr key m.name }) Method.ofJson
      (Method.toJson .ascending) m := by
  intro said kept result hkept hread
  obtain ⟨left, rfl, hleft⟩ := hkept.written hm.extra
  simp only [Method.ofJson, bind_eq_ok_iff, pure_eq_ok_iff] at hread
  obtain ⟨_, hfields, comment, hcomment, deprecated, hdeprecated, exposed, hexposed, name, hname,
    signatures, hsignatures, isStatic, hisStatic, rfl⟩ := hread
  cases pure_eq_ok_iff.1 hfields
  have acomment := text_again (by simpa using hleft "comment" (by decide)) hcomment
  have adeprecated := flag_again (by simpa using hleft "deprecated" (by decide)) hdeprecated
  have aexposed := exposure_again (by simpa using hleft "exposed" (by decide)) hexposed
  have aname := name_again (nameOr_nameOr key) (by simpa using hleft "name" (by decide)) hname
  have asignatures := nonempty_again (fun s hs => Signature.restores (hm.signatures s hs))
    (by simpa using hleft "signature" (by decide)) hsignatures
  have aisStatic := flag_again (by simpa using hleft "static" (by decide)) hisStatic
  refine hkept.record_again Method.keys ?_ ?_ fun left' hrest hleft' => ?_
  · simp [Method.keys]
  · simp only [Method.keys, List.forall_mem_cons]
    exact ⟨by simpa using aname.pruned, by simpa using asignatures.pruned,
      by simpa using aisStatic.pruned, by simpa using acomment.pruned,
      by simpa using aexposed.pruned, by simpa using adeprecated.pruned, List.forall_mem_nil _⟩
  · obtain ⟨name', hname', hfill⟩ := aname.read left' (by simpa using hleft' "name" (by decide))
    refine ⟨{ name := name', signatures, isStatic, comment, exposed, deprecated,
              extra := rest Method.keys left' }, ?_, ?_⟩
    · simp only [Method.ofJson, bind_eq_ok_iff, pure_eq_ok_iff]
      exact ⟨_, rfl, _, acomment.read left' (by simpa using hleft' "comment" (by decide)), _,
        adeprecated.read left' (by simpa using hleft' "deprecated" (by decide)), _,
        aexposed.read left' (by simpa using hleft' "exposed" (by decide)), _, hname', _,
        asignatures.read left' (by simpa using hleft' "signature" (by decide)), _,
        aisStatic.read left' (by simpa using hleft' "static" (by decide)), rfl⟩
    · simp only [hrest, hfill]
      rfl

theorem Property.again {p : Property} (hp : p.Tidy) (key : String) :
    AgainAs (fun p => { p with name := nameOr key p.name }) Property.ofJson
      (Property.toJson .ascending) p := by
  intro said kept result hkept hread
  obtain ⟨left, rfl, hleft⟩ := hkept.written hp.extra
  simp only [Property.ofJson, bind_eq_ok_iff, pure_eq_ok_iff] at hread
  obtain ⟨_, hfields, comment, hcomment, deprecated, hdeprecated, exposed, hexposed, name, hname,
    readOnly, hreadOnly, isStatic, hisStatic, type, htype, rfl⟩ := hread
  cases pure_eq_ok_iff.1 hfields
  have acomment := text_again (by simpa using hleft "comment" (by decide)) hcomment
  have adeprecated := flag_again (by simpa using hleft "deprecated" (by decide)) hdeprecated
  have aexposed := exposure_again (by simpa using hleft "exposed" (by decide)) hexposed
  have aname := name_again (nameOr_nameOr key) (by simpa using hleft "name" (by decide)) hname
  have areadOnly := flag_again (by simpa using hleft "read-only" (by decide)) hreadOnly
  have aisStatic := flag_again (by simpa using hleft "static" (by decide)) hisStatic
  have htypeLeft : p.type.LeftIn (fun key => said.bind (·.at? key)) left :=
    ⟨by simpa using hleft "type" (by decide), by simpa using hleft "subtype" (by decide),
      by simpa using hleft "nullable" (by decide)⟩
  have atype := htypeLeft.again htype
  refine hkept.record_again Property.keys ?_ ?_ fun left' hrest hleft' => ?_
  · simp [Property.keys, TypeRef.keys]
  · simp only [Property.keys, TypeRef.keys, List.cons_append, List.nil_append, List.forall_mem_cons]
    exact ⟨by simpa using aname.pruned, by simpa using areadOnly.pruned,
      by simpa using aisStatic.pruned, by simpa using acomment.pruned,
      by simpa using aexposed.pruned, by simpa using adeprecated.pruned, by simpa using atype.head,
      by simpa using atype.arguments, by simpa using atype.nullable, List.forall_mem_nil _⟩
  · obtain ⟨name', hname', hfill⟩ := aname.read left' (by simpa using hleft' "name" (by decide))
    refine ⟨{ name := name', type, readOnly, isStatic, comment, exposed, deprecated,
              extra := rest Property.keys left' }, ?_, ?_⟩
    · simp only [Property.ofJson, bind_eq_ok_iff, pure_eq_ok_iff]
      exact ⟨_, rfl, _, acomment.read left' (by simpa using hleft' "comment" (by decide)), _,
        adeprecated.read left' (by simpa using hleft' "deprecated" (by decide)), _,
        aexposed.read left' (by simpa using hleft' "exposed" (by decide)), _, hname', _,
        areadOnly.read left' (by simpa using hleft' "read-only" (by decide)), _,
        aisStatic.read left' (by simpa using hleft' "static" (by decide)), _,
        atype.read left' ⟨by simpa using hleft' "type" (by decide),
          by simpa using hleft' "subtype" (by decide),
          by simpa using hleft' "nullable" (by decide)⟩, rfl⟩
    · simp only [hrest, hfill]
      rfl

theorem Constructor.again {c : Constructor} (hc : c.Tidy) :
    AgainAs id Constructor.ofJson (Constructor.toJson .ascending) c := by
  intro said kept result hkept hread
  obtain ⟨left, rfl, hleft⟩ := hkept.written hc.extra
  simp only [Constructor.ofJson, bind_eq_ok_iff, pure_eq_ok_iff] at hread
  obtain ⟨_, hfields, comment, hcomment, exposed, hexposed, signatures, hsignatures, rfl⟩ := hread
  cases pure_eq_ok_iff.1 hfields
  have acomment := text_again (by simpa using hleft "comment" (by decide)) hcomment
  have aexposed := exposure_again (by simpa using hleft "exposed" (by decide)) hexposed
  have asignatures := nonempty_again (fun s hs => Signature.restores (hc.signatures s hs))
    (by simpa using hleft "signature" (by decide)) hsignatures
  refine hkept.record_again Constructor.keys ?_ ?_ fun left' hrest hleft' => ?_
  · simp [Constructor.keys]
  · simp only [Constructor.keys, List.forall_mem_cons]
    exact ⟨by simpa using asignatures.pruned, by simpa using acomment.pruned,
      by simpa using aexposed.pruned, List.forall_mem_nil _⟩
  · refine ⟨{ signatures, comment, exposed, extra := rest Constructor.keys left' }, ?_, ?_⟩
    · simp only [Constructor.ofJson, bind_eq_ok_iff, pure_eq_ok_iff]
      exact ⟨_, rfl, _, acomment.read left' (by simpa using hleft' "comment" (by decide)), _,
        aexposed.read left' (by simpa using hleft' "exposed" (by decide)), _,
        asignatures.read left' (by simpa using hleft' "signature" (by decide)), rfl⟩
    · rw [hrest]
      rfl

theorem IteratorDecl.again {i : IteratorDecl} (hi : i.Tidy) :
    AgainAs id IteratorDecl.ofJson (IteratorDecl.toJson .ascending) i := by
  intro said kept result hkept hread
  obtain ⟨left, rfl, hleft⟩ := hkept.written hi.extra
  simp only [IteratorDecl.ofJson, bind_eq_ok_iff, pure_eq_ok_iff] at hread
  obtain ⟨_, hfields, kind, hkind, readOnly, hreadOnly, types, htypes, rfl⟩ := hread
  cases pure_eq_ok_iff.1 hfields
  have akind := required_again (again_text (fun _ => rfl) i.kind)
    (by simpa using hleft "kind" (by decide)) hkind
  have areadOnly := flag_again (by simpa using hleft "readonly" (by decide)) hreadOnly
  have atypes := orElse_again_id (again_typeRefs i.types)
    (by simpa using hleft "type" (by decide)) htypes
  refine hkept.record_again IteratorDecl.keys ?_ ?_ fun left' hrest hleft' => ?_
  · simp [IteratorDecl.keys]
  · simp only [IteratorDecl.keys, List.forall_mem_cons]
    exact ⟨by simpa using akind.pruned, by simpa using atypes.pruned,
      by simpa using areadOnly.pruned, List.forall_mem_nil _⟩
  · refine ⟨{ kind, types, readOnly, extra := rest IteratorDecl.keys left' }, ?_, ?_⟩
    · simp only [IteratorDecl.ofJson, bind_eq_ok_iff, pure_eq_ok_iff]
      exact ⟨_, rfl, _, akind.read left' (by simpa using hleft' "kind" (by decide)), _,
        areadOnly.read left' (by simpa using hleft' "readonly" (by decide)), _,
        atypes.read left' (by simpa using hleft' "type" (by decide)), rfl⟩
    · rw [hrest]
      rfl

theorem Member.again {m : Member} (hm : m.Tidy) (key : String) :
    AgainAs (fun m => { m with name := nameOr key m.name }) Member.ofJson
      (Member.toJson .ascending) m := by
  intro said kept result hkept hread
  obtain ⟨left, rfl, hleft⟩ := hkept.written hm.extra
  simp only [Member.ofJson, bind_eq_ok_iff, pure_eq_ok_iff] at hread
  obtain ⟨_, hfields, comment, hcomment, default, hdefault, name, hname, required, hrequired, type,
    htype, rfl⟩ := hread
  cases pure_eq_ok_iff.1 hfields
  have acomment := text_again (by simpa using hleft "comment" (by decide)) hcomment
  have adefault := literal_again (by simpa using hleft "default" (by decide)) hdefault
  have aname := name_again (nameOr_nameOr key) (by simpa using hleft "name" (by decide)) hname
  have arequired := flag_again (by simpa using hleft "required" (by decide)) hrequired
  have htypeLeft : m.type.LeftIn (fun key => said.bind (·.at? key)) left :=
    ⟨by simpa using hleft "type" (by decide), by simpa using hleft "subtype" (by decide),
      by simpa using hleft "nullable" (by decide)⟩
  have atype := htypeLeft.again htype
  refine hkept.record_again Member.keys ?_ ?_ fun left' hrest hleft' => ?_
  · simp [Member.keys, TypeRef.keys]
  · simp only [Member.keys, TypeRef.keys, List.cons_append, List.nil_append, List.forall_mem_cons]
    exact ⟨by simpa using aname.pruned, by simpa using arequired.pruned,
      by simpa using adefault.pruned, by simpa using acomment.pruned, by simpa using atype.head,
      by simpa using atype.arguments, by simpa using atype.nullable, List.forall_mem_nil _⟩
  · obtain ⟨name', hname', hfill⟩ := aname.read left' (by simpa using hleft' "name" (by decide))
    refine ⟨{ name := name', type, required, default, comment,
              extra := rest Member.keys left' }, ?_, ?_⟩
    · simp only [Member.ofJson, bind_eq_ok_iff, pure_eq_ok_iff]
      exact ⟨_, rfl, _, acomment.read left' (by simpa using hleft' "comment" (by decide)), _,
        adefault.read left' (by simpa using hleft' "default" (by decide)), _, hname', _,
        arequired.read left' (by simpa using hleft' "required" (by decide)), _,
        atype.read left' ⟨by simpa using hleft' "type" (by decide),
          by simpa using hleft' "subtype" (by decide),
          by simpa using hleft' "nullable" (by decide)⟩, rfl⟩
    · simp only [hrest, hfill]
      rfl

/-! ## Definitions -/

theorem CallbackFunction.again {f : CallbackFunction} (hf : f.Tidy) (key : String) :
    AgainAs (fun f => { f with name := nameOr key f.name }) CallbackFunction.ofJson
      (CallbackFunction.toJson .ascending) f := by
  intro said kept result hkept hread
  obtain ⟨left, rfl, hleft⟩ := hkept.written hf.extra
  simp only [CallbackFunction.ofJson, bind_eq_ok_iff, pure_eq_ok_iff] at hread
  obtain ⟨_, hfields, comment, hcomment, name, hname, signatures, hsignatures, rfl⟩ := hread
  cases pure_eq_ok_iff.1 hfields
  have acomment := text_again (by simpa using hleft "comment" (by decide)) hcomment
  have aname := name_again (nameOr_nameOr key) (by simpa using hleft "name" (by decide)) hname
  have asignatures := nonempty_again (fun s hs => Signature.restores (hf.signatures s hs))
    (by simpa using hleft "signature" (by decide)) hsignatures
  refine hkept.record_again CallbackFunction.keys ?_ ?_ fun left' hrest hleft' => ?_
  · simp [CallbackFunction.keys]
  · simp only [CallbackFunction.keys, List.forall_mem_cons]
    exact ⟨by simpa using aname.pruned, by simpa using asignatures.pruned,
      by simpa using acomment.pruned, List.forall_mem_nil _⟩
  · obtain ⟨name', hname', hfill⟩ := aname.read left' (by simpa using hleft' "name" (by decide))
    refine ⟨{ name := name', signatures, comment,
              extra := rest CallbackFunction.keys left' }, ?_, ?_⟩
    · simp only [CallbackFunction.ofJson, bind_eq_ok_iff, pure_eq_ok_iff]
      exact ⟨_, rfl, _, acomment.read left' (by simpa using hleft' "comment" (by decide)), _,
        hname', _, asignatures.read left' (by simpa using hleft' "signature" (by decide)), rfl⟩
    · simp only [hrest, hfill]
      rfl

theorem Enumeration.again {e : Enumeration} (he : e.Tidy) (key : String) :
    AgainAs (fun e => { e with name := nameOr key e.name }) Enumeration.ofJson
      (Enumeration.toJson .ascending) e := by
  intro said kept result hkept hread
  obtain ⟨left, rfl, hleft⟩ := hkept.written he.extra
  simp only [Enumeration.ofJson, bind_eq_ok_iff, pure_eq_ok_iff] at hread
  obtain ⟨_, hfields, comment, hcomment, name, hname, values, hvalues, rfl⟩ := hread
  cases pure_eq_ok_iff.1 hfields
  have acomment := text_again (by simpa using hleft "comment" (by decide)) hcomment
  have aname := name_again (nameOr_nameOr key) (by simpa using hleft "name" (by decide)) hname
  have avalues := orElse_again_id (again_texts e.values)
    (by simpa using hleft "value" (by decide)) hvalues
  refine hkept.record_again Enumeration.keys ?_ ?_ fun left' hrest hleft' => ?_
  · simp [Enumeration.keys]
  · simp only [Enumeration.keys, List.forall_mem_cons]
    exact ⟨by simpa using aname.pruned, by simpa using avalues.pruned,
      by simpa using acomment.pruned, List.forall_mem_nil _⟩
  · obtain ⟨name', hname', hfill⟩ := aname.read left' (by simpa using hleft' "name" (by decide))
    refine ⟨{ name := name', values, comment, extra := rest Enumeration.keys left' }, ?_, ?_⟩
    · simp only [Enumeration.ofJson, bind_eq_ok_iff, pure_eq_ok_iff]
      exact ⟨_, rfl, _, acomment.read left' (by simpa using hleft' "comment" (by decide)), _,
        hname',
        _, avalues.read left' (by simpa using hleft' "value" (by decide)), rfl⟩
    · simp only [hrest, hfill]
      rfl

theorem Dictionary.again {d : Dictionary} (hd : d.Tidy) (key : String) :
    AgainAs (Dictionary.fillNames key) Dictionary.ofJson (Dictionary.toJson .ascending) d := by
  intro said kept result hkept hread
  obtain ⟨left, rfl, hleft⟩ := hkept.written hd.extra
  simp only [Dictionary.ofJson, bind_eq_ok_iff, pure_eq_ok_iff] at hread
  obtain ⟨_, hfields, comment, hcomment, parent, hparent, members, hmembers, name, hname, rfl⟩ :=
    hread
  cases pure_eq_ok_iff.1 hfields
  have acomment := text_again (by simpa using hleft "comment" (by decide)) hcomment
  have aparent := text_again (by simpa using hleft "extends" (by decide)) hparent
  have amembers := collection_again _ (fun key m hm => Member.again (hd.members key m hm) key)
    (by simpa using hleft "members" (by decide)) hmembers
  have aname := name_again (nameOr_nameOr key) (by simpa using hleft "name" (by decide)) hname
  simp only [Dictionary.fillNames, Dictionary.fillMemberNames]
  refine hkept.record_again Dictionary.keys ?_ ?_ fun left' hrest hleft' => ?_
  · simp [Dictionary.keys]
  · simp only [Dictionary.keys, List.forall_mem_cons]
    exact ⟨by simpa using aname.pruned, by simpa using aparent.pruned,
      by simpa using acomment.pruned, by simpa using amembers.pruned, List.forall_mem_nil _⟩
  · obtain ⟨name', hname', hfill⟩ := aname.read left' (by simpa using hleft' "name" (by decide))
    obtain ⟨members', hmembers', hfills⟩ :=
      amembers.read left' (by simpa using hleft' "members" (by decide))
    refine ⟨{ name := name', parent, comment, members := members',
              extra := rest Dictionary.keys left' }, ?_, ?_⟩
    · simp only [Dictionary.ofJson, bind_eq_ok_iff, pure_eq_ok_iff]
      exact ⟨_, rfl, _, acomment.read left' (by simpa using hleft' "comment" (by decide)), _,
        aparent.read left' (by simpa using hleft' "extends" (by decide)), _, hmembers', _, hname',
        rfl⟩
    · simp only [hrest, hfill, hfills]
      rfl

/-- An interface is pruned again, whatever becomes of its own name: it is filled in from a key, or
stays as it is in a namespace. -/
theorem Interface.again {i : Interface} (hi : i.Tidy) {f : String → String}
    (hf : ∀ name, f (f name) = f name) :
    AgainAs (fun i => { i.fillMemberNames with name := f i.name }) Interface.ofJson
      (Interface.toJson .ascending) i := by
  intro said kept result hkept hread
  obtain ⟨left, rfl, hleft⟩ := hkept.written hi.extra
  simp only [Interface.ofJson, bind_eq_ok_iff, pure_eq_ok_iff] at hread
  obtain ⟨_, hfields, comment, hcomment, constants, hconstants, constructor, hconstructor,
    deprecated, hdeprecated, exposed, hexposed, parent, hparent, implements, himplements,
    iterator, hiterator, methods, hmethods, name, hname, overrideExposed, hoverrideExposed,
    properties, hproperties, rfl⟩ := hread
  cases pure_eq_ok_iff.1 hfields
  have acomment := text_again (by simpa using hleft "comment" (by decide)) hcomment
  have aconstants := collection_again _ (fun key c hc => Constant.again (hi.constants key c hc) key)
    (by simpa using hleft "constants" (by decide)) hconstants
  have aconstructor := optional_again_id
    (fun c hc => Constructor.again (hi.constructor c hc)) ⟨_, rfl⟩
    (by simpa using hleft "constructor" (by decide)) hconstructor
  have adeprecated := flag_again (by simpa using hleft "deprecated" (by decide)) hdeprecated
  have aexposed := exposure_again (by simpa using hleft "exposed" (by decide)) hexposed
  have aparent := text_again (by simpa using hleft "extends" (by decide)) hparent
  have aimplements := optional_again_id (fun names _ => again_texts names) ⟨_, rfl⟩
    (by simpa using hleft "implements" (by decide)) himplements
  have aiterator := optional_again_id (fun d hd => IteratorDecl.again (hi.iterator d hd)) ⟨_, rfl⟩
    (by simpa using hleft "iterator" (by decide)) hiterator
  have amethods := collection_again _ (fun key m hm => Method.again (hi.methods key m hm) key)
    (by simpa using hleft "methods" (by decide)) hmethods
  have aname := name_again hf (by simpa using hleft "name" (by decide)) hname
  have aoverrideExposed := exposure_again
    (by simpa using hleft "override-exposed" (by decide)) hoverrideExposed
  have aproperties := collection_again _
    (fun key p hp => Property.again (hi.properties key p hp) key)
    (by simpa using hleft "properties" (by decide)) hproperties
  simp only [Interface.fillMemberNames]
  refine hkept.record_again Interface.keys ?_ ?_ fun left' hrest hleft' => ?_
  · simp [Interface.keys]
  · simp only [Interface.keys, List.forall_mem_cons]
    exact ⟨by simpa using aname.pruned, by simpa using aparent.pruned,
      by simpa using acomment.pruned, by simpa using aconstants.pruned,
      by simpa using amethods.pruned, by simpa using aproperties.pruned,
      by simpa using aconstructor.pruned, by simpa using aexposed.pruned,
      by simpa using aoverrideExposed.pruned, by simpa using aimplements.pruned,
      by simpa using aiterator.pruned, by simpa using adeprecated.pruned, List.forall_mem_nil _⟩
  · obtain ⟨name', hname', hfill⟩ := aname.read left' (by simpa using hleft' "name" (by decide))
    obtain ⟨constants', hconstants', hfillConstants⟩ :=
      aconstants.read left' (by simpa using hleft' "constants" (by decide))
    obtain ⟨methods', hmethods', hfillMethods⟩ :=
      amethods.read left' (by simpa using hleft' "methods" (by decide))
    obtain ⟨properties', hproperties', hfillProperties⟩ :=
      aproperties.read left' (by simpa using hleft' "properties" (by decide))
    refine ⟨{ name := name', parent, comment, constants := constants', methods := methods',
              properties := properties', constructor, exposed, overrideExposed, implements,
                iterator,
              deprecated, extra := rest Interface.keys left' }, ?_, ?_⟩
    · simp only [Interface.ofJson, bind_eq_ok_iff, pure_eq_ok_iff]
      exact ⟨_, rfl, _, acomment.read left' (by simpa using hleft' "comment" (by decide)), _,
        hconstants', _, aconstructor.read left' (by simpa using hleft' "constructor" (by decide)),
          _,
        adeprecated.read left' (by simpa using hleft' "deprecated" (by decide)), _,
        aexposed.read left' (by simpa using hleft' "exposed" (by decide)), _,
        aparent.read left' (by simpa using hleft' "extends" (by decide)), _,
        aimplements.read left' (by simpa using hleft' "implements" (by decide)), _,
        aiterator.read left' (by simpa using hleft' "iterator" (by decide)), _, hmethods', _,
          hname', _,
        aoverrideExposed.read left' (by simpa using hleft' "override-exposed" (by decide)), _,
        hproperties', rfl⟩
    · simp only [hrest, hfill, hfillConstants, hfillMethods, hfillProperties]
      rfl

end IdlDecls
