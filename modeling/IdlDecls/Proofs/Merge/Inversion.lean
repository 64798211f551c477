import IdlDecls.Merge.Graph
import IdlDecls.Proofs.Merge.Identified

/-!
# What a merge does to each field

For every type, `MergesTo` lists the merges of its fields that make up a merge of two values, under
the policies as they reach the field. A merge ends well exactly if they do, and their results are
the fields of the result (`merge_eq_ok_iff`). Whatever is said of merges later on is said of the
fields through these lists, never by opening a merge again.
-/

namespace IdlDecls

open Merge Merging

/-! ## JSON -/

/-- The fields of an addition come to an object one after the other. -/
theorem jsonFields_cons_eq_ok_iff {active : Policy} {base rest result : List (String × Json)}
    {key : String} {value : Json} :
    jsonFields active base ((key, value) :: rest) = .ok result ↔
      ∃ merged, Joined (fun old new merged => json active old new = .ok merged)
          (Entries.get? base key) (some value) (some merged) ∧
        jsonFields active (Entries.insert key merged base) rest = .ok result := by
  rw [jsonFields]
  cases hold : Entries.get? base key with
  | none => simp
  | some old =>
    cases hm : json active old value with
    | error c => simp [hm, within]
    | ok merged => simp [hm]

/-! ## Members -/

/-- The merges that make up the merge of two type references. -/
structure TypeRef.MergesTo (active : Policy) (base addition result : TypeRef) : Prop where
  head : scalar active base.head addition.head = .ok result.head
  arguments : scalar active base.arguments addition.arguments = .ok result.arguments
  nullable : scalar active base.nullable addition.nullable = .ok result.nullable

theorem TypeRef.merge_eq_ok_iff {active : Policy} {base addition result : TypeRef} :
    base.merge active addition = .ok result ↔ TypeRef.MergesTo active base addition result := by
  simp only [TypeRef.merge, bind_eq_ok_iff, within_eq_ok_iff, pure_eq_ok_iff]
  constructor
  · rintro ⟨_, hhead, _, harguments, _, hnullable, rfl⟩
    exact ⟨hhead, harguments, hnullable⟩
  · intro h
    exact ⟨_, h.head, _, h.arguments, _, h.nullable, by cases result; rfl⟩

/-- The merges that make up the merge of two constants. -/
structure Constant.MergesTo (active : Policy) (base addition result : Constant) : Prop where
  name : result.name = base.name
  type : base.type.merge active addition.type = .ok result.type
  value : literal active base.value addition.value = .ok result.value
  comment : scalar active base.comment addition.comment = .ok result.comment
  exposed : exposure active base.exposed addition.exposed = .ok result.exposed
  extra : extras active base.extra addition.extra = .ok result.extra

theorem Constant.merge_eq_ok_iff {active : Policy} {base addition result : Constant} :
    base.merge active addition = .ok result ↔ Constant.MergesTo active base addition result := by
  simp only [Constant.merge, bind_eq_ok_iff, within_eq_ok_iff, pure_eq_ok_iff]
  constructor
  · rintro ⟨_, htype, _, hvalue, _, hcomment, _, hexposed, _, hextra, rfl⟩
    exact ⟨rfl, htype, hvalue, hcomment, hexposed, hextra⟩
  · intro h
    exact ⟨_, h.type, _, h.value, _, h.comment, _, h.exposed, _, h.extra, by rw [← h.name]⟩

/-- The merges that make up the merge of two methods. -/
structure Method.MergesTo (active : Policy) (base addition result : Method) : Prop where
  name : result.name = base.name
  signatures : result.signatures = base.signatures ++ addition.signatures
  isStatic : scalar active base.isStatic addition.isStatic = .ok result.isStatic
  comment : scalar active base.comment addition.comment = .ok result.comment
  exposed : exposure active base.exposed addition.exposed = .ok result.exposed
  deprecated : deprecation active base.deprecated addition.deprecated = .ok result.deprecated
  extra : extras active base.extra addition.extra = .ok result.extra

theorem Method.merge_eq_ok_iff {active : Policy} {base addition result : Method} :
    base.merge active addition = .ok result ↔ Method.MergesTo active base addition result := by
  simp only [Method.merge, bind_eq_ok_iff, within_eq_ok_iff, pure_eq_ok_iff]
  constructor
  · rintro ⟨_, hstatic, _, hcomment, _, hexposed, _, hdeprecated, _, hextra, rfl⟩
    exact ⟨rfl, rfl, hstatic, hcomment, hexposed, hdeprecated, hextra⟩
  · intro h
    exact ⟨_, h.isStatic, _, h.comment, _, h.exposed, _, h.deprecated, _, h.extra,
      by rw [← h.name, ← h.signatures]⟩

/-- The merges that make up the merge of two properties. -/
structure Property.MergesTo (active : Policy) (base addition result : Property) : Prop where
  name : result.name = base.name
  type : base.type.merge active addition.type = .ok result.type
  readOnly : scalar active base.readOnly addition.readOnly = .ok result.readOnly
  isStatic : scalar active base.isStatic addition.isStatic = .ok result.isStatic
  comment : scalar active base.comment addition.comment = .ok result.comment
  exposed : exposure active base.exposed addition.exposed = .ok result.exposed
  deprecated : deprecation active base.deprecated addition.deprecated = .ok result.deprecated
  extra : extras active base.extra addition.extra = .ok result.extra

theorem Property.merge_eq_ok_iff {active : Policy} {base addition result : Property} :
    base.merge active addition = .ok result ↔ Property.MergesTo active base addition result := by
  simp only [Property.merge, bind_eq_ok_iff, within_eq_ok_iff, pure_eq_ok_iff]
  constructor
  · rintro ⟨_, htype, _, hreadOnly, _, hstatic, _, hcomment, _, hexposed, _, hdeprecated, _, hextra,
      rfl⟩
    exact ⟨rfl, htype, hreadOnly, hstatic, hcomment, hexposed, hdeprecated, hextra⟩
  · intro h
    exact ⟨_, h.type, _, h.readOnly, _, h.isStatic, _, h.comment, _, h.exposed, _, h.deprecated, _,
      h.extra, by rw [← h.name]⟩

/-- The merges that make up the merge of two constructors. -/
structure Constructor.MergesTo (active : Policy) (base addition result : Constructor) : Prop where
  signatures : result.signatures = base.signatures ++ addition.signatures
  comment : scalar active base.comment addition.comment = .ok result.comment
  exposed : exposure active base.exposed addition.exposed = .ok result.exposed
  extra : extras active base.extra addition.extra = .ok result.extra

theorem Constructor.merge_eq_ok_iff {active : Policy} {base addition result : Constructor} :
    base.merge active addition = .ok result ↔ Constructor.MergesTo active base addition result := by
  simp only [Constructor.merge, bind_eq_ok_iff, within_eq_ok_iff, pure_eq_ok_iff]
  constructor
  · rintro ⟨_, hcomment, _, hexposed, _, hextra, rfl⟩
    exact ⟨rfl, hcomment, hexposed, hextra⟩
  · intro h
    exact ⟨_, h.comment, _, h.exposed, _, h.extra, by rw [← h.signatures]⟩

/-- The merges that make up the merge of two iterator declarations. -/
structure IteratorDecl.MergesTo (active : Policy) (base addition result : IteratorDecl) :
    Prop where
  kind : mergeKind active base.kind addition.kind = .ok result.kind
  types : result.types = base.types ++ addition.types
  readOnly : scalar active base.readOnly addition.readOnly = .ok result.readOnly
  extra : extras active base.extra addition.extra = .ok result.extra

theorem IteratorDecl.merge_eq_ok_iff {active : Policy} {base addition result : IteratorDecl} :
    base.merge active addition = .ok result ↔
      IteratorDecl.MergesTo active base addition result := by
  simp only [IteratorDecl.merge, bind_eq_ok_iff, within_eq_ok_iff, pure_eq_ok_iff]
  constructor
  · rintro ⟨_, hkind, _, hreadOnly, _, hextra, rfl⟩
    exact ⟨hkind, rfl, hreadOnly, hextra⟩
  · intro h
    exact ⟨_, h.kind, _, h.readOnly, _, h.extra, by rw [← h.types]⟩

/-- The merges that make up the merge of two dictionary members. -/
structure Member.MergesTo (active : Policy) (base addition result : Member) : Prop where
  name : result.name = base.name
  type : base.type.merge active addition.type = .ok result.type
  required : scalar active base.required addition.required = .ok result.required
  default : literal active base.default addition.default = .ok result.default
  comment : scalar active base.comment addition.comment = .ok result.comment
  extra : extras active base.extra addition.extra = .ok result.extra

theorem Member.merge_eq_ok_iff {active : Policy} {base addition result : Member} :
    base.merge active addition = .ok result ↔ Member.MergesTo active base addition result := by
  simp only [Member.merge, bind_eq_ok_iff, within_eq_ok_iff, pure_eq_ok_iff]
  constructor
  · rintro ⟨_, htype, _, hrequired, _, hdefault, _, hcomment, _, hextra, rfl⟩
    exact ⟨rfl, htype, hrequired, hdefault, hcomment, hextra⟩
  · intro h
    exact ⟨_, h.type, _, h.required, _, h.default, _, h.comment, _, h.extra, by rw [← h.name]⟩

/-! ## Definitions -/

/-- The merges that make up the merge of two interfaces. -/
structure Interface.MergesTo (policy : MergePolicy) (base addition result : Interface) : Prop where
  name : result.name = base.name
  parent : scalar policy.entries base.parent addition.parent = .ok result.parent
  comment : scalar policy.entries base.comment addition.comment = .ok result.comment
  constants : base.mergeConstants policy.members addition = .ok result.constants
  methods : base.mergeMethods policy.members addition = .ok result.methods
  properties : base.mergeProperties policy.members addition = .ok result.properties
  constructor : optional (Constructor.merge policy.members) base.constructor addition.constructor =
    .ok result.constructor
  iterator : optional (IteratorDecl.merge policy.members) base.iterator addition.iterator =
    .ok result.iterator
  exposed : exposure policy.entries base.exposed addition.exposed = .ok result.exposed
  overrideExposed : exposure policy.entries base.overrideExposed addition.overrideExposed =
    .ok result.overrideExposed
  implements : grown policy.entries unionNames base.implements addition.implements =
    .ok result.implements
  deprecated : deprecation policy.entries base.deprecated addition.deprecated =
    .ok result.deprecated
  extra : extras policy.entries base.extra addition.extra = .ok result.extra

theorem Interface.merge_eq_ok_iff {policy : MergePolicy} {base addition result : Interface} :
    base.merge policy addition = .ok result ↔ Interface.MergesTo policy base addition result := by
  simp only [Interface.merge, bind_eq_ok_iff, within_eq_ok_iff, pure_eq_ok_iff]
  constructor
  · rintro ⟨_, hparent, _, hcomment, _, hconstants, _, hmethods, _, hproperties, _, hconstructor, _,
      hiterator, _, hexposed, _, hoverride, _, himplements, _, hdeprecated, _, hextra, rfl⟩
    exact ⟨rfl, hparent, hcomment, hconstants, hmethods, hproperties, hconstructor, hiterator,
      hexposed, hoverride, himplements, hdeprecated, hextra⟩
  · intro h
    exact ⟨_, h.parent, _, h.comment, _, h.constants, _, h.methods, _, h.properties, _,
      h.constructor, _, h.iterator, _, h.exposed, _, h.overrideExposed, _, h.implements, _,
      h.deprecated, _, h.extra, by rw [← h.name]⟩

/-- The merges that make up the merge of two dictionaries. -/
structure Dictionary.MergesTo (policy : MergePolicy) (base addition result : Dictionary) :
    Prop where
  name : result.name = base.name
  parent : scalar policy.entries base.parent addition.parent = .ok result.parent
  comment : scalar policy.entries base.comment addition.comment = .ok result.comment
  members : base.mergeMemberMap policy.members addition = .ok result.members
  extra : extras policy.entries base.extra addition.extra = .ok result.extra

theorem Dictionary.merge_eq_ok_iff {policy : MergePolicy} {base addition result : Dictionary} :
    base.merge policy addition = .ok result ↔ Dictionary.MergesTo policy base addition result := by
  simp only [Dictionary.merge, bind_eq_ok_iff, within_eq_ok_iff, pure_eq_ok_iff]
  constructor
  · rintro ⟨_, hparent, _, hcomment, _, hmembers, _, hextra, rfl⟩
    exact ⟨rfl, hparent, hcomment, hmembers, hextra⟩
  · intro h
    exact ⟨_, h.parent, _, h.comment, _, h.members, _, h.extra, by rw [← h.name]⟩

/-- The merges that make up the merge of two enumerations. -/
structure Enumeration.MergesTo (active : Policy) (base addition result : Enumeration) : Prop where
  name : result.name = base.name
  values : result.values = unionNames base.values addition.values
  comment : scalar active base.comment addition.comment = .ok result.comment
  extra : extras active base.extra addition.extra = .ok result.extra

theorem Enumeration.merge_eq_ok_iff {active : Policy} {base addition result : Enumeration} :
    base.merge active addition = .ok result ↔ Enumeration.MergesTo active base addition result := by
  simp only [Enumeration.merge, bind_eq_ok_iff, within_eq_ok_iff, pure_eq_ok_iff]
  constructor
  · rintro ⟨_, hcomment, _, hextra, rfl⟩
    exact ⟨rfl, rfl, hcomment, hextra⟩
  · intro h
    exact ⟨_, h.comment, _, h.extra, by rw [← h.name, ← h.values]⟩

/-- The merges that make up the merge of two callback functions. -/
structure CallbackFunction.MergesTo (active : Policy) (base addition result : CallbackFunction) :
    Prop where
  name : result.name = base.name
  signatures : result.signatures = base.signatures ++ addition.signatures
  comment : scalar active base.comment addition.comment = .ok result.comment
  extra : extras active base.extra addition.extra = .ok result.extra

theorem CallbackFunction.merge_eq_ok_iff {active : Policy}
    {base addition result : CallbackFunction} :
    base.merge active addition = .ok result ↔
      CallbackFunction.MergesTo active base addition result := by
  simp only [CallbackFunction.merge, bind_eq_ok_iff, within_eq_ok_iff, pure_eq_ok_iff]
  constructor
  · rintro ⟨_, hcomment, _, hextra, rfl⟩
    exact ⟨rfl, rfl, hcomment, hextra⟩
  · intro h
    exact ⟨_, h.comment, _, h.extra, by rw [← h.name, ← h.signatures]⟩

/-- The merges that make up the merge of two type definitions. -/
structure Typedef.MergesTo (active : Policy) (base addition result : Typedef) : Prop where
  name : result.name = base.name
  type : base.type.merge active addition.type = .ok result.type
  comment : scalar active base.comment addition.comment = .ok result.comment
  extra : extras active base.extra addition.extra = .ok result.extra

theorem Typedef.merge_eq_ok_iff {active : Policy} {base addition result : Typedef} :
    base.merge active addition = .ok result ↔ Typedef.MergesTo active base addition result := by
  simp only [Typedef.merge, bind_eq_ok_iff, within_eq_ok_iff, pure_eq_ok_iff]
  constructor
  · rintro ⟨_, htype, _, hcomment, _, hextra, rfl⟩
    exact ⟨rfl, htype, hcomment, hextra⟩
  · intro h
    exact ⟨_, h.type, _, h.comment, _, h.extra, by rw [← h.name]⟩

/-! ## Graphs -/

/-- The merge of two lists of namespaces that may be left out: an addition meets the empty list where
the base has none. -/
def Graph.mergeNamespaceLists (policy : MergePolicy) :
    Option (List Interface) → Option (List Interface) → Merging (Option (List Interface))
  | base, none => .ok base
  | base, some items => some <$> mergeNamespaces policy (base.getD []) items

/-- The merges that make up the merge of two graphs. -/
structure Graph.MergesTo (policy : MergePolicy) (base addition result : Graph) : Prop where
  callbackFunctions : collection policy.entries "callback-functions" "callback-function"
    (CallbackFunction.merge policy.entries) base.callbackFunctions addition.callbackFunctions =
    .ok result.callbackFunctions
  callbackInterfaces : collection policy.entries "callback-interfaces" "interface"
    (Interface.merge policy) base.callbackInterfaces addition.callbackInterfaces =
    .ok result.callbackInterfaces
  dictionaries : collection policy.entries "dictionaries" "dictionary"
    (Dictionary.merge policy) base.dictionaries addition.dictionaries = .ok result.dictionaries
  enums : collection policy.entries "enums" "enum"
    (Enumeration.merge policy.entries) base.enums addition.enums = .ok result.enums
  interfaces : collection policy.entries "interfaces" "interface"
    (Interface.merge policy) base.interfaces addition.interfaces = .ok result.interfaces
  mixins : collection policy.entries "mixins" "mixin"
    (Interface.merge policy) base.mixins addition.mixins = .ok result.mixins
  typedefs : optional (fun old value => within "typedef" (mergeTypedefs policy.entries old value))
    base.typedefs addition.typedefs = .ok result.typedefs
  namespaces : mergeNamespaceLists policy base.namespaces addition.namespaces =
    .ok result.namespaces
  extra : extras policy.entries base.extra addition.extra = .ok result.extra

theorem Graph.merge_eq_ok_iff {policy : MergePolicy} {base addition result : Graph} :
    base.merge policy addition = .ok result ↔ Graph.MergesTo policy base addition result := by
  cases hn : addition.namespaces with
  | none =>
    simp only [Graph.merge, hn, bind_eq_ok_iff, within_eq_ok_iff, pure_eq_ok_iff]
    constructor
    · rintro ⟨_, hfunctions, _, hcallbacks, _, hdictionaries, _, henums, _, hinterfaces, _, hmixins,
        _, htypedefs, _, rfl, _, hextra, rfl⟩
      exact ⟨hfunctions, hcallbacks, hdictionaries, henums, hinterfaces, hmixins, htypedefs,
        by rw [hn]; rfl, hextra⟩
    · intro h
      have hnames : base.namespaces = result.namespaces := by
        have := h.namespaces
        rw [hn] at this
        exact Except.ok.inj this
      exact ⟨_, h.callbackFunctions, _, h.callbackInterfaces, _, h.dictionaries, _, h.enums, _,
        h.interfaces, _, h.mixins, _, h.typedefs, _, hnames, _, h.extra, rfl⟩
  | some items =>
    simp only [Graph.merge, hn, bind_eq_ok_iff, within_eq_ok_iff, pure_eq_ok_iff]
    constructor
    · rintro ⟨_, hfunctions, _, hcallbacks, _, hdictionaries, _, henums, _, hinterfaces, _, hmixins,
        _, htypedefs, _, hnames, _, hextra, rfl⟩
      exact ⟨hfunctions, hcallbacks, hdictionaries, henums, hinterfaces, hmixins, htypedefs,
        by rw [hn]; exact hnames, hextra⟩
    · intro h
      have hnames := h.namespaces
      rw [hn] at hnames
      exact ⟨_, h.callbackFunctions, _, h.callbackInterfaces, _, h.dictionaries, _, h.enums, _,
        h.interfaces, _, h.mixins, _, h.typedefs, _, hnames, _, h.extra, rfl⟩

/-! ## Collections by key -/

/-- **A merge of collections is a merge at every key.** -/
theorem lookup?_collection {α : Type} {level : Policy} {field entries : String}
    {join : α → α → Merging α} {base addition result : Option (Keyed α)}
    (h : collection level field entries join base addition = .ok result) (key : String) :
    Joined (fun old new merged => shared level key join old new = .ok merged) (lookup? base key)
      (lookup? addition key) (lookup? result key) := by
  rw [collection, within_eq_ok_iff] at h
  cases base with
  | none => rw [optional_none_left] at h; cases h; exact .addition _
  | some b =>
    cases addition with
    | none => cases h; exact .base _
    | some a =>
      obtain ⟨r, hr, rfl⟩ := map_eq_ok_iff.1 h
      exact Keyed.get?_joinM (within_eq_ok_iff.1 hr) key

end IdlDecls
