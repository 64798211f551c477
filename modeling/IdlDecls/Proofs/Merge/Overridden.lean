import IdlDecls.Proofs.Merge.Fields

/-!
# Overriding merges

What a merge under `MergePolicy.override` leaves, said field by field and without policies, paths or
an order of steps. `Graph.Overridden` and the relations of the types below it are the specification;
`merge_override_iff` of each type says that its merge ends exactly there, and
`Graph.merge_override` that every merge of two graphs ends and that nothing is left open.
-/

namespace IdlDecls

open Merge Merging

theorem override_ne_reject : Policy.override ≠ .reject := nofun

/-! ## Members -/

/-- The type that a merge leaves: every part is the addition's where it is given. -/
structure TypeRef.Overridden (base addition result : TypeRef) : Prop where
  head : result.head = addition.head.or base.head
  arguments : result.arguments = addition.arguments.or base.arguments
  nullable : result.nullable = addition.nullable.or base.nullable

theorem TypeRef.merge_override_iff {base addition result : TypeRef} :
    base.merge .override addition = .ok result ↔ TypeRef.Overridden base addition result := by
  rw [TypeRef.merge_eq_ok_iff]
  constructor
  · intro h
    exact ⟨scalar_override_iff.1 h.head, scalar_override_iff.1 h.arguments,
      scalar_override_iff.1 h.nullable⟩
  · intro h
    exact ⟨scalar_override_iff.2 h.head, scalar_override_iff.2 h.arguments,
      scalar_override_iff.2 h.nullable⟩

theorem TypeRef.merge_override_total (base addition : TypeRef) :
    ∃ result, base.merge .override addition = .ok result :=
  ⟨⟨_, _, _⟩, TypeRef.merge_override_iff.2 ⟨rfl, rfl, rfl⟩⟩

/-- The constant that a merge leaves. -/
structure Constant.Overridden (base addition result : Constant) : Prop where
  name : result.name = base.name
  type : TypeRef.Overridden base.type addition.type result.type
  value : Joined (fun old new merged => merged = old.replacedBy new) base.value addition.value
    result.value
  comment : result.comment = addition.comment.or base.comment
  exposed : Exposure.Overridden base.exposed addition.exposed result.exposed
  extra : Extra.Overridden base.extra addition.extra result.extra

theorem Constant.merge_override_iff {base addition result : Constant} :
    base.merge .override addition = .ok result ↔ Constant.Overridden base addition result := by
  rw [Constant.merge_eq_ok_iff]
  constructor
  · intro h
    exact ⟨h.name, TypeRef.merge_override_iff.1 h.type, literal_override_iff.1 h.value,
      scalar_override_iff.1 h.comment, exposure_override_iff.1 h.exposed,
      extras_override_iff.1 h.extra⟩
  · intro h
    exact ⟨h.name, TypeRef.merge_override_iff.2 h.type, literal_override_iff.2 h.value,
      scalar_override_iff.2 h.comment, exposure_override_iff.2 h.exposed,
      extras_override_iff.2 h.extra⟩

theorem Constant.merge_override_total (base addition : Constant) :
    ∃ result, base.merge .override addition = .ok result := by
  obtain ⟨type, htype⟩ := TypeRef.merge_override_total base.type addition.type
  obtain ⟨value, hvalue⟩ := literal_override_total base.value addition.value
  obtain ⟨comment, hcomment⟩ := scalar_override_total base.comment addition.comment
  obtain ⟨exposed, hexposed⟩ := exposure_override_total base.exposed addition.exposed
  obtain ⟨extra, hextra⟩ := extras_override_total base.extra addition.extra
  exact ⟨⟨base.name, type, value, comment, exposed, extra⟩,
    Constant.merge_eq_ok_iff.2 ⟨rfl, htype, hvalue, hcomment, hexposed, hextra⟩⟩

/-- The method that a merge leaves: the overloads of both sides, and a deprecation stays. -/
structure Method.Overridden (base addition result : Method) : Prop where
  name : result.name = base.name
  signatures : result.signatures = base.signatures ++ addition.signatures
  isStatic : result.isStatic = addition.isStatic.or base.isStatic
  comment : result.comment = addition.comment.or base.comment
  exposed : Exposure.Overridden base.exposed addition.exposed result.exposed
  deprecated : Joined (fun old new merged => merged = (old || new)) base.deprecated
    addition.deprecated result.deprecated
  extra : Extra.Overridden base.extra addition.extra result.extra

theorem Method.merge_override_iff {base addition result : Method} :
    base.merge .override addition = .ok result ↔ Method.Overridden base addition result := by
  rw [Method.merge_eq_ok_iff]
  constructor
  · intro h
    exact ⟨h.name, h.signatures, scalar_override_iff.1 h.isStatic, scalar_override_iff.1 h.comment,
      exposure_override_iff.1 h.exposed, grown_override_iff.1 h.deprecated,
      extras_override_iff.1 h.extra⟩
  · intro h
    exact ⟨h.name, h.signatures, scalar_override_iff.2 h.isStatic, scalar_override_iff.2 h.comment,
      exposure_override_iff.2 h.exposed, grown_override_iff.2 h.deprecated,
      extras_override_iff.2 h.extra⟩

theorem Method.merge_override_total (base addition : Method) :
    ∃ result, base.merge .override addition = .ok result := by
  obtain ⟨isStatic, hstatic⟩ := scalar_override_total base.isStatic addition.isStatic
  obtain ⟨comment, hcomment⟩ := scalar_override_total base.comment addition.comment
  obtain ⟨exposed, hexposed⟩ := exposure_override_total base.exposed addition.exposed
  obtain ⟨deprecated, hdeprecated⟩ := grown_override_total (· || ·) base.deprecated
    addition.deprecated
  obtain ⟨extra, hextra⟩ := extras_override_total base.extra addition.extra
  exact ⟨⟨base.name, _, isStatic, comment, exposed, deprecated, extra⟩,
    Method.merge_eq_ok_iff.2 ⟨rfl, rfl, hstatic, hcomment, hexposed, hdeprecated, hextra⟩⟩

/-- The property that a merge leaves. -/
structure Property.Overridden (base addition result : Property) : Prop where
  name : result.name = base.name
  type : TypeRef.Overridden base.type addition.type result.type
  readOnly : result.readOnly = addition.readOnly.or base.readOnly
  isStatic : result.isStatic = addition.isStatic.or base.isStatic
  comment : result.comment = addition.comment.or base.comment
  exposed : Exposure.Overridden base.exposed addition.exposed result.exposed
  deprecated : Joined (fun old new merged => merged = (old || new)) base.deprecated
    addition.deprecated result.deprecated
  extra : Extra.Overridden base.extra addition.extra result.extra

theorem Property.merge_override_iff {base addition result : Property} :
    base.merge .override addition = .ok result ↔ Property.Overridden base addition result := by
  rw [Property.merge_eq_ok_iff]
  constructor
  · intro h
    exact ⟨h.name, TypeRef.merge_override_iff.1 h.type, scalar_override_iff.1 h.readOnly,
      scalar_override_iff.1 h.isStatic, scalar_override_iff.1 h.comment,
      exposure_override_iff.1 h.exposed, grown_override_iff.1 h.deprecated,
      extras_override_iff.1 h.extra⟩
  · intro h
    exact ⟨h.name, TypeRef.merge_override_iff.2 h.type, scalar_override_iff.2 h.readOnly,
      scalar_override_iff.2 h.isStatic, scalar_override_iff.2 h.comment,
      exposure_override_iff.2 h.exposed, grown_override_iff.2 h.deprecated,
      extras_override_iff.2 h.extra⟩

theorem Property.merge_override_total (base addition : Property) :
    ∃ result, base.merge .override addition = .ok result := by
  obtain ⟨type, htype⟩ := TypeRef.merge_override_total base.type addition.type
  obtain ⟨readOnly, hreadOnly⟩ := scalar_override_total base.readOnly addition.readOnly
  obtain ⟨isStatic, hstatic⟩ := scalar_override_total base.isStatic addition.isStatic
  obtain ⟨comment, hcomment⟩ := scalar_override_total base.comment addition.comment
  obtain ⟨exposed, hexposed⟩ := exposure_override_total base.exposed addition.exposed
  obtain ⟨deprecated, hdeprecated⟩ := grown_override_total (· || ·) base.deprecated
    addition.deprecated
  obtain ⟨extra, hextra⟩ := extras_override_total base.extra addition.extra
  exact ⟨⟨base.name, type, readOnly, isStatic, comment, exposed, deprecated, extra⟩,
    Property.merge_eq_ok_iff.2
      ⟨rfl, htype, hreadOnly, hstatic, hcomment, hexposed, hdeprecated, hextra⟩⟩

/-- The constructor that a merge leaves. -/
structure Constructor.Overridden (base addition result : Constructor) : Prop where
  signatures : result.signatures = base.signatures ++ addition.signatures
  comment : result.comment = addition.comment.or base.comment
  exposed : Exposure.Overridden base.exposed addition.exposed result.exposed
  extra : Extra.Overridden base.extra addition.extra result.extra

theorem Constructor.merge_override_iff {base addition result : Constructor} :
    base.merge .override addition = .ok result ↔ Constructor.Overridden base addition result := by
  rw [Constructor.merge_eq_ok_iff]
  constructor
  · intro h
    exact ⟨h.signatures, scalar_override_iff.1 h.comment, exposure_override_iff.1 h.exposed,
      extras_override_iff.1 h.extra⟩
  · intro h
    exact ⟨h.signatures, scalar_override_iff.2 h.comment, exposure_override_iff.2 h.exposed,
      extras_override_iff.2 h.extra⟩

theorem Constructor.merge_override_total (base addition : Constructor) :
    ∃ result, base.merge .override addition = .ok result := by
  obtain ⟨comment, hcomment⟩ := scalar_override_total base.comment addition.comment
  obtain ⟨exposed, hexposed⟩ := exposure_override_total base.exposed addition.exposed
  obtain ⟨extra, hextra⟩ := extras_override_total base.extra addition.extra
  exact ⟨⟨_, comment, exposed, extra⟩,
    Constructor.merge_eq_ok_iff.2 ⟨rfl, hcomment, hexposed, hextra⟩⟩

/-- The iterator declaration that a merge leaves; the empty kind counts as not given. -/
structure IteratorDecl.Overridden (base addition result : IteratorDecl) : Prop where
  kind : result.kind = if addition.kind = "" then base.kind else addition.kind
  types : result.types = base.types ++ addition.types
  readOnly : result.readOnly = addition.readOnly.or base.readOnly
  extra : Extra.Overridden base.extra addition.extra result.extra

theorem mergeKind_override (base addition : String) :
    IteratorDecl.mergeKind .override base addition =
      .ok (if addition = "" then base else addition) := by
  rw [IteratorDecl.mergeKind]
  by_cases hb : base = ""
  · rw [if_pos hb]
    by_cases ha : addition = ""
    · rw [if_pos ha, hb, ha]
    · rw [if_neg ha]
  · by_cases ha : addition = ""
    · rw [if_neg hb, if_pos ha, if_pos ha]
    · rw [if_neg hb, if_neg ha, if_neg ha, settle_override]

theorem IteratorDecl.merge_override_iff {base addition result : IteratorDecl} :
    base.merge .override addition = .ok result ↔ IteratorDecl.Overridden base addition result := by
  rw [IteratorDecl.merge_eq_ok_iff]
  constructor
  · intro h
    have hkind := h.kind
    rw [mergeKind_override] at hkind
    exact ⟨(Except.ok.inj hkind).symm, h.types, scalar_override_iff.1 h.readOnly,
      extras_override_iff.1 h.extra⟩
  · intro h
    exact ⟨by rw [mergeKind_override, h.kind], h.types, scalar_override_iff.2 h.readOnly,
      extras_override_iff.2 h.extra⟩

theorem IteratorDecl.merge_override_total (base addition : IteratorDecl) :
    ∃ result, base.merge .override addition = .ok result := by
  obtain ⟨readOnly, hreadOnly⟩ := scalar_override_total base.readOnly addition.readOnly
  obtain ⟨extra, hextra⟩ := extras_override_total base.extra addition.extra
  exact ⟨⟨_, _, readOnly, extra⟩,
    IteratorDecl.merge_eq_ok_iff.2 ⟨mergeKind_override _ _, rfl, hreadOnly, hextra⟩⟩

/-- The dictionary member that a merge leaves. -/
structure Member.Overridden (base addition result : Member) : Prop where
  name : result.name = base.name
  type : TypeRef.Overridden base.type addition.type result.type
  required : result.required = addition.required.or base.required
  default : Joined (fun old new merged => merged = old.replacedBy new) base.default
    addition.default result.default
  comment : result.comment = addition.comment.or base.comment
  extra : Extra.Overridden base.extra addition.extra result.extra

theorem Member.merge_override_iff {base addition result : Member} :
    base.merge .override addition = .ok result ↔ Member.Overridden base addition result := by
  rw [Member.merge_eq_ok_iff]
  constructor
  · intro h
    exact ⟨h.name, TypeRef.merge_override_iff.1 h.type, scalar_override_iff.1 h.required,
      literal_override_iff.1 h.default, scalar_override_iff.1 h.comment,
      extras_override_iff.1 h.extra⟩
  · intro h
    exact ⟨h.name, TypeRef.merge_override_iff.2 h.type, scalar_override_iff.2 h.required,
      literal_override_iff.2 h.default, scalar_override_iff.2 h.comment,
      extras_override_iff.2 h.extra⟩

theorem Member.merge_override_total (base addition : Member) :
    ∃ result, base.merge .override addition = .ok result := by
  obtain ⟨type, htype⟩ := TypeRef.merge_override_total base.type addition.type
  obtain ⟨required, hrequired⟩ := scalar_override_total base.required addition.required
  obtain ⟨default, hdefault⟩ := literal_override_total base.default addition.default
  obtain ⟨comment, hcomment⟩ := scalar_override_total base.comment addition.comment
  obtain ⟨extra, hextra⟩ := extras_override_total base.extra addition.extra
  exact ⟨⟨base.name, type, required, default, comment, extra⟩,
    Member.merge_eq_ok_iff.2 ⟨rfl, htype, hrequired, hdefault, hcomment, hextra⟩⟩

/-! ## Definitions -/

/-- The interface that a merge leaves: members, constructor and iterator of one side stay as they
are, and what both sides have is merged. -/
structure Interface.Overridden (base addition result : Interface) : Prop where
  name : result.name = base.name
  parent : result.parent = addition.parent.or base.parent
  comment : result.comment = addition.comment.or base.comment
  constants : Joined (ByKey Constant.Overridden) base.constants addition.constants result.constants
  methods : Joined (ByKey Method.Overridden) base.methods addition.methods result.methods
  properties : Joined (ByKey Property.Overridden) base.properties addition.properties
    result.properties
  constructor : Joined Constructor.Overridden base.constructor addition.constructor
    result.constructor
  iterator : Joined IteratorDecl.Overridden base.iterator addition.iterator result.iterator
  exposed : Exposure.Overridden base.exposed addition.exposed result.exposed
  overrideExposed : Exposure.Overridden base.overrideExposed addition.overrideExposed
    result.overrideExposed
  implements : Joined (fun old new merged => merged = joinedNames old new) base.implements
    addition.implements result.implements
  deprecated : Joined (fun old new merged => merged = (old || new)) base.deprecated
    addition.deprecated result.deprecated
  extra : Extra.Overridden base.extra addition.extra result.extra

section InterfaceFields

variable {base addition result : Interface}

theorem Interface.mergeConstants_override_iff {constants : Option (Keyed Constant)} :
    base.mergeConstants .override addition = .ok constants ↔
      Joined (ByKey Constant.Overridden) base.constants addition.constants constants :=
  collection_eq_ok_iff override_ne_reject fun _ _ _ => Constant.merge_override_iff

theorem Interface.mergeMethods_override_iff {methods : Option (Keyed Method)} :
    base.mergeMethods .override addition = .ok methods ↔
      Joined (ByKey Method.Overridden) base.methods addition.methods methods :=
  collection_eq_ok_iff override_ne_reject fun _ _ _ => Method.merge_override_iff

theorem Interface.mergeProperties_override_iff {properties : Option (Keyed Property)} :
    base.mergeProperties .override addition = .ok properties ↔
      Joined (ByKey Property.Overridden) base.properties addition.properties properties :=
  collection_eq_ok_iff override_ne_reject fun _ _ _ => Property.merge_override_iff

theorem constructor_override_iff {base addition result : Option Constructor} :
    Merge.optional (Constructor.merge .override) base addition = .ok result ↔
      Joined Constructor.Overridden base addition result := by
  rw [optional_eq_ok_iff]
  exact Joined.congr_iff fun _ _ _ => Constructor.merge_override_iff

theorem iterator_override_iff {base addition result : Option IteratorDecl} :
    Merge.optional (IteratorDecl.merge .override) base addition = .ok result ↔
      Joined IteratorDecl.Overridden base addition result := by
  rw [optional_eq_ok_iff]
  exact Joined.congr_iff fun _ _ _ => IteratorDecl.merge_override_iff

theorem implements_override_iff {base addition result : Option (List String)} :
    grown .override unionNames base addition = .ok result ↔
      Joined (fun old new merged => merged = joinedNames old new) base addition result := by
  rw [grown_override_iff]
  exact Joined.congr_iff fun old new _ => by rw [unionNames_eq]

theorem Interface.merge_override_iff :
    base.merge .override addition = .ok result ↔ Interface.Overridden base addition result := by
  rw [Interface.merge_eq_ok_iff]
  constructor
  · intro h
    exact ⟨h.name, scalar_override_iff.1 h.parent, scalar_override_iff.1 h.comment,
      mergeConstants_override_iff.1 h.constants, mergeMethods_override_iff.1 h.methods,
      mergeProperties_override_iff.1 h.properties, constructor_override_iff.1 h.constructor,
      iterator_override_iff.1 h.iterator, exposure_override_iff.1 h.exposed,
      exposure_override_iff.1 h.overrideExposed, implements_override_iff.1 h.implements,
      grown_override_iff.1 h.deprecated, extras_override_iff.1 h.extra⟩
  · intro h
    exact ⟨h.name, scalar_override_iff.2 h.parent, scalar_override_iff.2 h.comment,
      mergeConstants_override_iff.2 h.constants, mergeMethods_override_iff.2 h.methods,
      mergeProperties_override_iff.2 h.properties, constructor_override_iff.2 h.constructor,
      iterator_override_iff.2 h.iterator, exposure_override_iff.2 h.exposed,
      exposure_override_iff.2 h.overrideExposed, implements_override_iff.2 h.implements,
      grown_override_iff.2 h.deprecated, extras_override_iff.2 h.extra⟩

theorem Interface.mergeMembers_override_total (base addition : Interface) :
    ∃ result, base.mergeMembers .override addition = .ok result := by
  obtain ⟨constants, hconstants⟩ := collection_total override_ne_reject
    Constant.merge_override_total base.constants addition.constants
  obtain ⟨methods, hmethods⟩ := collection_total override_ne_reject
    Method.merge_override_total base.methods addition.methods
  obtain ⟨properties, hproperties⟩ := collection_total override_ne_reject
    Property.merge_override_total base.properties addition.properties
  refine ⟨{ base with constants, methods, properties }, within_eq_ok_iff.2 ?_⟩
  exact bind_eq_ok_iff.2 ⟨constants, hconstants, bind_eq_ok_iff.2 ⟨methods, hmethods,
    bind_eq_ok_iff.2 ⟨properties, hproperties, rfl⟩⟩⟩

theorem Interface.merge_override_total (base addition : Interface) :
    ∃ result, base.merge .override addition = .ok result := by
  obtain ⟨parent, hparent⟩ := scalar_override_total base.parent addition.parent
  obtain ⟨comment, hcomment⟩ := scalar_override_total base.comment addition.comment
  obtain ⟨constants, hconstants⟩ := collection_total override_ne_reject
    Constant.merge_override_total base.constants addition.constants
  obtain ⟨methods, hmethods⟩ := collection_total override_ne_reject
    Method.merge_override_total base.methods addition.methods
  obtain ⟨properties, hproperties⟩ := collection_total override_ne_reject
    Property.merge_override_total base.properties addition.properties
  obtain ⟨constructor, hconstructor⟩ := optional_total Constructor.merge_override_total
    base.constructor addition.constructor
  obtain ⟨iterator, hiterator⟩ := optional_total IteratorDecl.merge_override_total base.iterator
    addition.iterator
  obtain ⟨exposed, hexposed⟩ := exposure_override_total base.exposed addition.exposed
  obtain ⟨overrideExposed, hoverride⟩ := exposure_override_total base.overrideExposed
    addition.overrideExposed
  obtain ⟨implements, himplements⟩ := grown_override_total unionNames base.implements
    addition.implements
  obtain ⟨deprecated, hdeprecated⟩ := grown_override_total (· || ·) base.deprecated
    addition.deprecated
  obtain ⟨extra, hextra⟩ := extras_override_total base.extra addition.extra
  exact ⟨⟨base.name, parent, comment, constants, methods, properties, constructor, exposed,
      overrideExposed, implements, iterator, deprecated, extra⟩,
    Interface.merge_eq_ok_iff.2 ⟨rfl, hparent, hcomment, hconstants, hmethods, hproperties,
      hconstructor, hiterator, hexposed, hoverride, himplements, hdeprecated, hextra⟩⟩

end InterfaceFields

/-- The dictionary that a merge leaves. -/
structure Dictionary.Overridden (base addition result : Dictionary) : Prop where
  name : result.name = base.name
  parent : result.parent = addition.parent.or base.parent
  comment : result.comment = addition.comment.or base.comment
  members : Joined (ByKey Member.Overridden) base.members addition.members result.members
  extra : Extra.Overridden base.extra addition.extra result.extra

theorem Dictionary.mergeMemberMap_override_iff {base addition : Dictionary}
    {members : Option (Keyed Member)} :
    base.mergeMemberMap .override addition = .ok members ↔
      Joined (ByKey Member.Overridden) base.members addition.members members :=
  collection_eq_ok_iff override_ne_reject fun _ _ _ => Member.merge_override_iff

theorem Dictionary.merge_override_iff {base addition result : Dictionary} :
    base.merge .override addition = .ok result ↔ Dictionary.Overridden base addition result := by
  rw [Dictionary.merge_eq_ok_iff]
  constructor
  · intro h
    exact ⟨h.name, scalar_override_iff.1 h.parent, scalar_override_iff.1 h.comment,
      mergeMemberMap_override_iff.1 h.members, extras_override_iff.1 h.extra⟩
  · intro h
    exact ⟨h.name, scalar_override_iff.2 h.parent, scalar_override_iff.2 h.comment,
      mergeMemberMap_override_iff.2 h.members, extras_override_iff.2 h.extra⟩

theorem Dictionary.mergeMembers_override_total (base addition : Dictionary) :
    ∃ result, base.mergeMembers .override addition = .ok result := by
  obtain ⟨members, hmembers⟩ := collection_total override_ne_reject
    Member.merge_override_total base.members addition.members
  exact ⟨{ base with members }, within_eq_ok_iff.2 (bind_eq_ok_iff.2 ⟨members, hmembers, rfl⟩)⟩

theorem Dictionary.merge_override_total (base addition : Dictionary) :
    ∃ result, base.merge .override addition = .ok result := by
  obtain ⟨parent, hparent⟩ := scalar_override_total base.parent addition.parent
  obtain ⟨comment, hcomment⟩ := scalar_override_total base.comment addition.comment
  obtain ⟨members, hmembers⟩ := collection_total override_ne_reject
    Member.merge_override_total base.members addition.members
  obtain ⟨extra, hextra⟩ := extras_override_total base.extra addition.extra
  exact ⟨⟨base.name, parent, comment, members, extra⟩,
    Dictionary.merge_eq_ok_iff.2 ⟨rfl, hparent, hcomment, hmembers, hextra⟩⟩

/-- The enumeration that a merge leaves. -/
structure Enumeration.Overridden (base addition result : Enumeration) : Prop where
  name : result.name = base.name
  values : result.values = joinedNames base.values addition.values
  comment : result.comment = addition.comment.or base.comment
  extra : Extra.Overridden base.extra addition.extra result.extra

theorem Enumeration.merge_override_iff {base addition result : Enumeration} :
    base.merge .override addition = .ok result ↔ Enumeration.Overridden base addition result := by
  rw [Enumeration.merge_eq_ok_iff]
  constructor
  · intro h
    exact ⟨h.name, h.values.trans (unionNames_eq _ _), scalar_override_iff.1 h.comment,
      extras_override_iff.1 h.extra⟩
  · intro h
    exact ⟨h.name, h.values.trans (unionNames_eq _ _).symm, scalar_override_iff.2 h.comment,
      extras_override_iff.2 h.extra⟩

theorem Enumeration.merge_override_total (base addition : Enumeration) :
    ∃ result, base.merge .override addition = .ok result := by
  obtain ⟨comment, hcomment⟩ := scalar_override_total base.comment addition.comment
  obtain ⟨extra, hextra⟩ := extras_override_total base.extra addition.extra
  exact ⟨⟨base.name, _, comment, extra⟩,
    Enumeration.merge_eq_ok_iff.2 ⟨rfl, rfl, hcomment, hextra⟩⟩

/-- The callback function that a merge leaves. -/
structure CallbackFunction.Overridden (base addition result : CallbackFunction) : Prop where
  name : result.name = base.name
  signatures : result.signatures = base.signatures ++ addition.signatures
  comment : result.comment = addition.comment.or base.comment
  extra : Extra.Overridden base.extra addition.extra result.extra

theorem CallbackFunction.merge_override_iff {base addition result : CallbackFunction} :
    base.merge .override addition = .ok result ↔
      CallbackFunction.Overridden base addition result := by
  rw [CallbackFunction.merge_eq_ok_iff]
  constructor
  · intro h
    exact ⟨h.name, h.signatures, scalar_override_iff.1 h.comment, extras_override_iff.1 h.extra⟩
  · intro h
    exact ⟨h.name, h.signatures, scalar_override_iff.2 h.comment, extras_override_iff.2 h.extra⟩

theorem CallbackFunction.merge_override_total (base addition : CallbackFunction) :
    ∃ result, base.merge .override addition = .ok result := by
  obtain ⟨comment, hcomment⟩ := scalar_override_total base.comment addition.comment
  obtain ⟨extra, hextra⟩ := extras_override_total base.extra addition.extra
  exact ⟨⟨base.name, _, comment, extra⟩,
    CallbackFunction.merge_eq_ok_iff.2 ⟨rfl, rfl, hcomment, hextra⟩⟩

/-- The type definition that a merge leaves. -/
structure Typedef.Overridden (base addition result : Typedef) : Prop where
  name : result.name = base.name
  type : TypeRef.Overridden base.type addition.type result.type
  comment : result.comment = addition.comment.or base.comment
  extra : Extra.Overridden base.extra addition.extra result.extra

theorem Typedef.merge_override_iff {base addition result : Typedef} :
    base.merge .override addition = .ok result ↔ Typedef.Overridden base addition result := by
  rw [Typedef.merge_eq_ok_iff]
  constructor
  · intro h
    exact ⟨h.name, TypeRef.merge_override_iff.1 h.type, scalar_override_iff.1 h.comment,
      extras_override_iff.1 h.extra⟩
  · intro h
    exact ⟨h.name, TypeRef.merge_override_iff.2 h.type, scalar_override_iff.2 h.comment,
      extras_override_iff.2 h.extra⟩

theorem Typedef.merge_override_total (base addition : Typedef) :
    ∃ result, base.merge .override addition = .ok result := by
  obtain ⟨type, htype⟩ := TypeRef.merge_override_total base.type addition.type
  obtain ⟨comment, hcomment⟩ := scalar_override_total base.comment addition.comment
  obtain ⟨extra, hextra⟩ := extras_override_total base.extra addition.extra
  exact ⟨⟨base.name, type, comment, extra⟩,
    Typedef.merge_eq_ok_iff.2 ⟨rfl, htype, hcomment, hextra⟩⟩

/-! ## Graphs -/

/-- No name of a type definition or of a namespace repeats; the empty name may. -/
structure Graph.IdentitiesDistinct (g : Graph) : Prop where
  typedefs : IdlDecls.IdentitiesDistinct Typedef.name (g.typedefs.getD [])
  namespaces : IdlDecls.IdentitiesDistinct Interface.name (g.namespaces.getD [])

instance (g : Graph) : Decidable g.IdentitiesDistinct :=
  decidable_of_iff (_ ∧ _) ⟨fun h => ⟨h.1, h.2⟩, fun h => ⟨h.1, h.2⟩⟩

/-- The graph that a merge leaves. -/
structure Graph.Overridden (base addition result : Graph) : Prop where
  callbackFunctions : Joined (ByKey CallbackFunction.Overridden) base.callbackFunctions
    addition.callbackFunctions result.callbackFunctions
  callbackInterfaces : Joined (ByKey Interface.Overridden) base.callbackInterfaces
    addition.callbackInterfaces result.callbackInterfaces
  dictionaries : Joined (ByKey Dictionary.Overridden) base.dictionaries addition.dictionaries
    result.dictionaries
  enums : Joined (ByKey Enumeration.Overridden) base.enums addition.enums result.enums
  interfaces : Joined (ByKey Interface.Overridden) base.interfaces addition.interfaces
    result.interfaces
  mixins : Joined (ByKey Interface.Overridden) base.mixins addition.mixins result.mixins
  typedefs : Joined (ByIdentity Typedef.name Typedef.Overridden) base.typedefs addition.typedefs
    result.typedefs
  namespaces : Joined (ByIdentity Interface.name Interface.Overridden) base.namespaces
    addition.namespaces result.namespaces
  extra : Extra.Overridden base.extra addition.extra result.extra

theorem mergeTypedefs_override_iff {base addition result : List Typedef}
    (hb : IdentitiesDistinct Typedef.name base) (ha : IdentitiesDistinct Typedef.name addition) :
    mergeTypedefs .override base addition = .ok result ↔
      ByIdentity Typedef.name Typedef.Overridden base addition result :=
  identified_eq_ok_iff override_ne_reject Typedef.merge_override_total
    (fun _ _ _ => Typedef.merge_override_iff) (fun _ _ _ h => h.name) hb ha

theorem mergeNamespaces_override_iff {base addition result : List Interface}
    (hb : IdentitiesDistinct Interface.name base)
    (ha : IdentitiesDistinct Interface.name addition) :
    mergeNamespaces .override base addition = .ok result ↔
      ByIdentity Interface.name Interface.Overridden base addition result :=
  identified_eq_ok_iff override_ne_reject Interface.merge_override_total
    (fun _ _ _ => Interface.merge_override_iff) (fun _ _ _ h => h.name) hb ha

theorem typedefs_override_iff {base addition result : Option (List Typedef)}
    (hb : IdentitiesDistinct Typedef.name (base.getD []))
    (ha : IdentitiesDistinct Typedef.name (addition.getD [])) :
    Merge.optional (fun old value => within "typedef" (mergeTypedefs .override old value)) base
        addition = .ok result ↔
      Joined (ByIdentity Typedef.name Typedef.Overridden) base addition result := by
  rw [optional_eq_ok_iff]
  rcases base with _ | old
  · rw [Joined.none_left_iff, Joined.none_left_iff]
  · rcases addition with _ | new
    · rw [Joined.none_right_iff, Joined.none_right_iff]
    · rw [Joined.some_some_iff, Joined.some_some_iff]
      refine exists_congr fun merged => and_congr_right fun _ => ?_
      rw [within_eq_ok_iff]
      exact mergeTypedefs_override_iff hb ha

/-- Where the base has no namespaces, those of the addition meet the empty list, and all are new. -/
theorem namespaces_override_iff {base addition result : Option (List Interface)}
    (hb : IdentitiesDistinct Interface.name (base.getD []))
    (ha : IdentitiesDistinct Interface.name (addition.getD [])) :
    Graph.mergeNamespaceLists .override base addition = .ok result ↔
      Joined (ByIdentity Interface.name Interface.Overridden) base addition result := by
  rcases addition with _ | new
  · rw [Graph.mergeNamespaceLists, Joined.none_right_iff, Except.ok.injEq, eq_comm]
  · rw [Graph.mergeNamespaceLists, map_eq_ok_iff]
    rcases base with _ | old
    · rw [Joined.none_left_iff]
      constructor
      · rintro ⟨merged, hm, rfl⟩
        rw [byIdentity_nil_iff.1 ((mergeNamespaces_override_iff hb ha).1 hm)]
        rfl
      · rintro rfl
        exact ⟨new, (mergeNamespaces_override_iff hb ha).2 (byIdentity_nil_iff.2 rfl), rfl⟩
    · rw [Joined.some_some_iff]
      refine exists_congr fun merged => ?_
      rw [and_comm, eq_comm]
      exact and_congr_right fun _ => mergeNamespaces_override_iff hb ha

theorem Graph.merge_override_iff {base addition result : Graph} (hb : base.IdentitiesDistinct)
    (ha : addition.IdentitiesDistinct) :
    base.merge .override addition = .ok result ↔ Graph.Overridden base addition result := by
  have hcallbacks {field entries : String} {base addition result : Option (Keyed Interface)} :
      collection .override field entries (Interface.merge .override) base addition = .ok result ↔
        Joined (ByKey Interface.Overridden) base addition result :=
    collection_eq_ok_iff override_ne_reject fun _ _ _ => Interface.merge_override_iff
  have hfunctions {field entries : String}
      {base addition result : Option (Keyed CallbackFunction)} :
      collection .override field entries (CallbackFunction.merge .override) base addition =
          .ok result ↔ Joined (ByKey CallbackFunction.Overridden) base addition result :=
    collection_eq_ok_iff override_ne_reject fun _ _ _ => CallbackFunction.merge_override_iff
  have hdictionaries {field entries : String} {base addition result : Option (Keyed Dictionary)} :
      collection .override field entries (Dictionary.merge .override) base addition = .ok result ↔
        Joined (ByKey Dictionary.Overridden) base addition result :=
    collection_eq_ok_iff override_ne_reject fun _ _ _ => Dictionary.merge_override_iff
  have henums {field entries : String} {base addition result : Option (Keyed Enumeration)} :
      collection .override field entries (Enumeration.merge .override) base addition = .ok result ↔
        Joined (ByKey Enumeration.Overridden) base addition result :=
    collection_eq_ok_iff override_ne_reject fun _ _ _ => Enumeration.merge_override_iff
  rw [Graph.merge_eq_ok_iff]
  constructor
  · intro h
    exact ⟨hfunctions.1 h.callbackFunctions, hcallbacks.1 h.callbackInterfaces,
      hdictionaries.1 h.dictionaries, henums.1 h.enums, hcallbacks.1 h.interfaces,
      hcallbacks.1 h.mixins, (typedefs_override_iff hb.typedefs ha.typedefs).1 h.typedefs,
      (namespaces_override_iff hb.namespaces ha.namespaces).1 h.namespaces,
      extras_override_iff.1 h.extra⟩
  · intro h
    exact ⟨hfunctions.2 h.callbackFunctions, hcallbacks.2 h.callbackInterfaces,
      hdictionaries.2 h.dictionaries, henums.2 h.enums, hcallbacks.2 h.interfaces,
      hcallbacks.2 h.mixins, (typedefs_override_iff hb.typedefs ha.typedefs).2 h.typedefs,
      (namespaces_override_iff hb.namespaces ha.namespaces).2 h.namespaces,
      extras_override_iff.2 h.extra⟩

theorem namespaces_override_total (base addition : Option (List Interface)) :
    ∃ result, Graph.mergeNamespaceLists .override base addition = .ok result := by
  rcases addition with _ | new
  · exact ⟨base, rfl⟩
  · have hitem : ∀ base item, ∃ next, identifiedItem .override Interface.name
        (Interface.merge .override) base item = .ok next :=
      identifiedItem_total override_ne_reject Interface.merge_override_total
    obtain ⟨merged, hm⟩ := foldlM_total hitem new (base.getD [])
    exact ⟨some merged, map_eq_ok_iff.2 ⟨merged, hm, rfl⟩⟩

theorem Graph.merge_override_total (base addition : Graph) :
    ∃ result, base.merge .override addition = .ok result := by
  have hitem : ∀ base item, ∃ next, identifiedItem .override Typedef.name
      (Typedef.merge .override) base item = .ok next :=
    identifiedItem_total override_ne_reject Typedef.merge_override_total
  have htypes : ∀ old new : List Typedef,
      ∃ m, within "typedef" (mergeTypedefs .override old new) = .ok m := by
    intro old new
    obtain ⟨m, hm⟩ := foldlM_total hitem new old
    exact ⟨m, within_eq_ok_iff.2 hm⟩
  obtain ⟨functions, hfunctions⟩ := collection_total override_ne_reject
    CallbackFunction.merge_override_total base.callbackFunctions addition.callbackFunctions
  obtain ⟨callbacks, hcallbacks⟩ := collection_total override_ne_reject
    Interface.merge_override_total base.callbackInterfaces addition.callbackInterfaces
  obtain ⟨dictionaries, hdictionaries⟩ := collection_total override_ne_reject
    Dictionary.merge_override_total base.dictionaries addition.dictionaries
  obtain ⟨enums, henums⟩ := collection_total override_ne_reject
    Enumeration.merge_override_total base.enums addition.enums
  obtain ⟨interfaces, hinterfaces⟩ := collection_total override_ne_reject
    Interface.merge_override_total base.interfaces addition.interfaces
  obtain ⟨mixins, hmixins⟩ := collection_total override_ne_reject
    Interface.merge_override_total base.mixins addition.mixins
  obtain ⟨typedefs, htypedefs⟩ := optional_total htypes base.typedefs addition.typedefs
  obtain ⟨namespaces, hnamespaces⟩ := namespaces_override_total base.namespaces addition.namespaces
  obtain ⟨extra, hextra⟩ := extras_override_total base.extra addition.extra
  exact ⟨⟨functions, callbacks, dictionaries, enums, interfaces, mixins, typedefs, namespaces,
      extra⟩,
    Graph.merge_eq_ok_iff.2 ⟨hfunctions, hcallbacks, hdictionaries, henums, hinterfaces, hmixins,
      htypedefs, hnamespaces, hextra⟩⟩

/-- **An overriding merge never fails, and its result is the one graph of the specification.** -/
theorem Graph.merge_override {base addition : Graph} (hb : base.IdentitiesDistinct)
    (ha : addition.IdentitiesDistinct) :
    ∃ result, base.merge .override addition = .ok result ∧
      ∀ other, Graph.Overridden base addition other ↔ other = result := by
  obtain ⟨result, h⟩ := Graph.merge_override_total base addition
  refine ⟨result, h, fun other => ?_⟩
  rw [← Graph.merge_override_iff hb ha, h, Except.ok.injEq, eq_comm]

/-- A graph with one interface, one type definition and one namespace. -/
def meterGraph : Graph where
  interfaces := some (.ofList [("Meter", {
    name := "Meter"
    methods := some (.ofList [("read", { name := "read", signatures := [{}] })])
    exposed := some (.ofList ["Window"]) })])
  typedefs := some [{ name := "Reading", type := ⟨some (.named "double"), none, none⟩ }]
  namespaces := some [{ name := "Units" }]

/-- What changes in `meterGraph`: an overload, a context, a type and a second type definition. -/
def meterChanges : Graph where
  interfaces := some (.ofList [("Meter", {
    name := "Meter"
    methods := some (.ofList [("read", { name := "read", signatures := [{ deprecated := some true }] })])
    exposed := some (.ofList ["Worker", "Window"]) })])
  typedefs := some [{ name := "Reading", type := ⟨some (.named "float"), none, none⟩ },
    { name := "Unit", type := ⟨some (.named "string"), none, none⟩ }]

theorem meterGraph_merge_override :
    meterGraph.IdentitiesDistinct ∧ meterChanges.IdentitiesDistinct ∧
      ∃ result, meterGraph.merge .override meterChanges = .ok result ∧
        ∀ other, Graph.Overridden meterGraph meterChanges other ↔ other = result := by
  have hb : meterGraph.IdentitiesDistinct := by decide +kernel
  have ha : meterChanges.IdentitiesDistinct := by decide +kernel
  exact ⟨hb, ha, Graph.merge_override hb ha⟩

/-- A graph with a constant of the interface `Meter` that is a float zero. -/
def meterFloor (zero : UInt64) : Graph where
  interfaces := some (.ofList [("Meter", {
    name := "Meter"
    constants := some (.ofList [("FLOOR", { name := "FLOOR", value := some (.num (.float zero)) })]) })])

/-- The value of the constant of `meterFloor`. -/
def floorOf (g : Graph) : Option Json :=
  (g.interface? "Meter").bind fun i => (i.constant? "FLOOR").bind (·.value)

/-- Zero does not take the place of the zero with a minus sign, though no identity repeats. -/
theorem merge_override_keeps_negativeZero :
    (meterFloor Number.negativeZero).IdentitiesDistinct ∧ (meterFloor 0).IdentitiesDistinct ∧
      ∃ result, (meterFloor Number.negativeZero).merge .override (meterFloor 0) = .ok result ∧
        floorOf (meterFloor 0) = some (.num (.float 0)) ∧
        floorOf result = some (.num (.float Number.negativeZero)) ∧
        floorOf result ≠ floorOf (meterFloor 0) :=
  ⟨by decide +kernel, by decide +kernel, meterFloor Number.negativeZero, by decide +kernel,
    by decide +kernel, by decide +kernel, by decide +kernel⟩

end IdlDecls
