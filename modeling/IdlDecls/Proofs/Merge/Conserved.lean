import IdlDecls.Integration.Integrate
import IdlDecls.Proofs.Merge.Fields

/-!
# What additions leave alone

Additions are merged under a policy that lets definitions grow and refuses everything else. The
relations `Conserved` say what that leaves of each type: the name and every single value that was set,
every non-empty exposure, every list of included mixins and every deprecation as they were, every
member unchanged in all its fields, and every definition under its key or at its index
(`Graph.mergeAdditions_conserves`). Overloads, iterator types and values of enumerations only have
new ones behind them.
-/

namespace IdlDecls

open Merge Merging

variable {α : Type}

/-! ## What is kept -/

/-- What was given is still given, and is to the old value as `R` says. -/
def Kept (R : α → α → Prop) (base result : Option α) : Prop :=
  ∀ old ∈ base, ∃ new ∈ result, R old new

/-- Every entry is kept under its key. -/
def KeptByKey (R : α → α → Prop) (base result : Keyed α) : Prop :=
  ∀ key, Kept R (base.get? key) (result.get? key)

/-- Every item is kept at its index. -/
def KeptInPlace (R : α → α → Prop) (base result : List α) : Prop :=
  ∀ i : Nat, Kept R base[i]? result[i]?

section Kept

variable {R : α → α → Prop}

theorem Kept.refl (hR : ∀ a, R a a) (base : Option α) : Kept R base base :=
  fun old hold => ⟨old, hold, hR old⟩

theorem Kept.trans {a b c : Option α} (hab : Kept R a b) (hbc : Kept R b c)
    (hR : ∀ a b c, R a b → R b c → R a c) : Kept R a c := by
  intro old hold
  obtain ⟨mid, hmid, holdmid⟩ := hab old hold
  obtain ⟨new, hnew, hmidnew⟩ := hbc mid hmid
  exact ⟨new, hnew, hR old mid new holdmid hmidnew⟩

theorem Kept.same (base : Option α) : Kept Eq base base :=
  Kept.refl (fun _ => rfl) base

theorem Kept.trans_eq {a b c : Option α} (hab : Kept Eq a b) (hbc : Kept Eq b c) : Kept Eq a c :=
  hab.trans hbc fun _ _ _ => Eq.trans

theorem KeptByKey.trans {a b c : Keyed α} (hab : KeptByKey R a b) (hbc : KeptByKey R b c)
    (hR : ∀ a b c, R a b → R b c → R a c) : KeptByKey R a c :=
  fun key => (hab key).trans (hbc key) hR

theorem KeptInPlace.trans {a b c : List α} (hab : KeptInPlace R a b) (hbc : KeptInPlace R b c)
    (hR : ∀ a b c, R a b → R b c → R a c) : KeptInPlace R a c :=
  fun i => (hab i).trans (hbc i) hR

/-- An item behind the others leaves them in their places. -/
theorem KeptInPlace.append (hR : ∀ a, R a a) (base more : List α) :
    KeptInPlace R base (base ++ more) := by
  intro i old hold
  obtain ⟨hi, -⟩ := List.getElem?_eq_some_iff.1 hold
  exact ⟨old, by rw [List.getElem?_append_left hi]; exact hold, hR old⟩

/-- One item changes, and the others stay in their places. -/
theorem KeptInPlace.middle (hR : ∀ a, R a a) {old new : α} (hnew : R old new) (m : List α) :
    ∀ l, KeptInPlace R (l ++ old :: m) (l ++ new :: m)
  | [], 0 => by
    rintro x ⟨⟩
    exact ⟨new, rfl, hnew⟩
  | [], _ + 1 => Kept.refl hR _
  | _ :: _, 0 => Kept.refl hR _
  | _ :: l, i + 1 => KeptInPlace.middle hR hnew m l i

/-- A join keeps the base if joining two values does. -/
theorem Joined.kept {S : α → α → α → Prop} (hR : ∀ a, R a a)
    (hS : ∀ old new merged, S old new merged → R old merged) {base addition result : Option α}
    (h : Joined S base addition result) : Kept R base result := by
  cases h with
  | base => exact Kept.refl hR _
  | addition => nofun
  | both h =>
    rintro old ⟨⟩
    exact ⟨_, rfl, hS _ _ _ h⟩

end Kept

/-! ## Collections -/

section Collections

variable {level : Policy} {join : α → α → Merging α} {R : α → α → Prop}

/-- **A collection keeps what its merges keep**, and under `reject` there are none. -/
theorem kept_collection (hR : ∀ a, R a a)
    (hjoin : ∀ old new merged, level ≠ .reject → join old new = .ok merged → R old merged)
    {field entries : String} {base addition result : Option (Keyed α)}
    (h : collection level field entries join base addition = .ok result) :
    Kept (KeptByKey R) base result := by
  rw [collection, within_eq_ok_iff, optional_eq_ok_iff] at h
  refine h.kept (fun m key => Kept.refl hR _) fun old new merged hm key => ?_
  refine (Keyed.get?_joinM (within_eq_ok_iff.1 hm) key).kept hR fun a b c habc => ?_
  obtain ⟨hlevel, hc⟩ := shared_eq_ok_iff.1 habc
  exact hjoin a b c hlevel hc

/-- Members are never touched. -/
theorem kept_collection_reject {field entries : String} {base addition result : Option (Keyed α)}
    (h : collection .reject field entries join base addition = .ok result) :
    Kept (KeptByKey Eq) base result :=
  kept_collection (fun _ => rfl) (fun _ _ _ hlevel => absurd rfl hlevel) h

/-- An item of the base may meet several items of an addition, so what a merge keeps has to carry over
from one to the next. -/
theorem kept_identified (hR : ∀ a, R a a) (htrans : ∀ a b c, R a b → R b c → R a c)
    {identity : α → String}
    (hjoin : ∀ old new merged, SameIdentity identity old new → join old new = .ok merged →
      R old merged)
    {base addition result : List α} (h : identified level identity join base addition = .ok result) :
    KeptInPlace R base result := by
  refine foldlM_keeps (P := fun l => KeptInPlace R base l) ?_ (fun i => Kept.refl hR _) h
  intro item _ l next hl hnext
  refine hl.trans ?_ htrans
  rcases identifiedItem_cases hnext with ⟨-, rfl⟩ | ⟨front, old, m, new, rfl, -, hsame, -, hnew, rfl⟩
  · exact KeptInPlace.append hR l [item]
  · exact KeptInPlace.middle hR (hjoin old item new hsame hnew) m front

end Collections

/-! ## Fields -/

section Fields

variable {active : Policy} (hactive : active ≠ .override)
include hactive

/-- Without `override`, a value that is set stays. -/
theorem eq_of_settleBy {β : Type} [DecidableEq β] {look : α → β} {old new merged : α}
    (h : settleBy look active old new = .ok merged) : old = merged := by
  unfold settleBy at h
  split at h
  · exact Except.ok.inj h
  · cases active with
    | reject | extend => cases h
    | override => exact absurd rfl hactive

theorem scalar_kept [DecidableEq α] {base addition result : Option α}
    (h : scalar active base addition = .ok result) : Kept Eq base result :=
  (optional_eq_ok_iff.1 h).kept (fun _ => rfl) fun _ _ _ => eq_of_settleBy hactive

theorem grown_kept [DecidableEq α] {union : α → α → α} {base addition result : Option α}
    (h : grown active union base addition = .ok result) : Kept Eq base result :=
  (optional_eq_ok_iff.1 h).kept (fun _ => rfl) fun _ _ _ => eq_of_settleBy hactive

end Fields

/-- An exposure with contexts stays as it is; the empty one counts as absent. -/
def Exposure.Conserved (base result : Option Exposure) : Prop :=
  Kept Eq (nonempty? base) (nonempty? result)

theorem exposure_conserved {active : Policy} (hactive : active ≠ .override)
    {base addition result : Option Exposure} (h : exposure active base addition = .ok result) :
    Exposure.Conserved base result := by
  rw [exposure] at h
  cases hvalue : Exposure.nonempty? addition with
  | none =>
    rw [hvalue] at h
    cases h
    exact Kept.same _
  | some value =>
    rw [hvalue] at h
    intro old hold
    obtain ⟨_, hnew, rfl⟩ := grown_kept hactive h old hold
    obtain ⟨-, hnonempty⟩ := Option.filter_eq_some_iff.1 hold
    exact ⟨old, Option.filter_eq_some_iff.2 ⟨hnew, hnonempty⟩, rfl⟩

/-! ## JSON -/

/-- The value that a path of keys leads to. -/
def Json.at? (j : Json) : List String → Option Json
  | [] => some j
  | key :: path =>
    match j with
    | .obj fields => (Entries.get? fields key).bind (·.at? path)
    | _ => none

/-- What may become of a value: an array may have new items behind the old ones, an object may have
other fields, and anything else stays the same. -/
inductive Json.KeptAs : Json → Json → Prop where
  | same (j : Json) : KeptAs j j
  | array (items more : List Json) : KeptAs (.arr items) (.arr (items ++ more))
  | object (fields fields' : List (String × Json)) : KeptAs (.obj fields) (.obj fields')

/-- The value at every path is kept, so a single value stays the same however deep it stands. -/
def Json.Conserved (base result : Json) : Prop :=
  ∀ path, Kept Json.KeptAs (base.at? path) (result.at? path)

/-- The extra fields of a definition are kept. -/
def Extra.Conserved : Extra → Extra → Prop := KeptByKey Json.Conserved

theorem Json.KeptAs.trans {a b c : Json} (hab : KeptAs a b) (hbc : KeptAs b c) : KeptAs a c := by
  cases hab with
  | same => exact hbc
  | array items more =>
    cases hbc with
    | same => exact .array items more
    | array _ more' => rw [List.append_assoc]; exact .array items (more ++ more')
  | object fields fields' =>
    cases hbc with
    | same => exact .object fields fields'
    | object _ fields'' => exact .object fields fields''

theorem Json.Conserved.refl (j : Json) : Json.Conserved j j :=
  fun _ => Kept.refl Json.KeptAs.same _

theorem Json.Conserved.trans {a b c : Json} (hab : Json.Conserved a b) (hbc : Json.Conserved b c) :
    Json.Conserved a c :=
  fun path => (hab path).trans (hbc path) fun _ _ _ => Json.KeptAs.trans

theorem Json.Conserved.arr (items more : List Json) :
    Json.Conserved (.arr items) (.arr (items ++ more))
  | [] => by
    rintro old ⟨⟩
    exact ⟨_, rfl, .array items more⟩
  | _ :: _ => nofun

/-- An object is kept if each of its fields is. -/
theorem Json.Conserved.obj {base result : List (String × Json)}
    (h : ∀ key, Kept Json.Conserved (Entries.get? base key) (Entries.get? result key)) :
    Json.Conserved (.obj base) (.obj result)
  | [] => by
    rintro old ⟨⟩
    exact ⟨_, rfl, .object base result⟩
  | key :: path => by
    intro value hvalue
    obtain ⟨old, hold, hat⟩ := Option.bind_eq_some_iff.1 hvalue
    obtain ⟨new, hnew, hconserved⟩ := h key old hold
    obtain ⟨value', hvalue', hkept⟩ := hconserved path value hat
    exact ⟨value', Option.bind_eq_some_iff.2 ⟨new, hnew, hvalue'⟩, hkept⟩

mutual

theorem json_conserved {active : Policy} (hactive : active ≠ .override) :
    ∀ {base addition result : Json},
      json active base addition = .ok result → Json.Conserved base result
  | .obj base, .obj addition, _, h => by
    rw [json] at h
    obtain ⟨fields, hfields, rfl⟩ := map_eq_ok_iff.1 h
    exact .obj (jsonFields_conserved hactive hfields)
  | .arr base, .arr addition, _, h => by
    rw [json] at h
    cases h
    exact .arr base addition
  | .null, b, _, h | .bool _, b, _, h | .num _, b, _, h | .str _, b, _, h => by
    cases b <;> (simp only [json] at h; exact eq_of_settleBy hactive h ▸ .refl _)
  | .obj _, .null, _, h | .obj _, .bool _, _, h | .obj _, .num _, _, h | .obj _, .str _, _, h
  | .obj _, .arr _, _, h => by
    simp only [json] at h
    exact eq_of_settleBy hactive h ▸ .refl _
  | .arr _, .null, _, h | .arr _, .bool _, _, h | .arr _, .num _, _, h | .arr _, .str _, _, h
  | .arr _, .obj _, _, h => by
    simp only [json] at h
    exact eq_of_settleBy hactive h ▸ .refl _

/-- The first field of the addition changes the object at its key only. -/
theorem jsonFields_conserved {active : Policy} (hactive : active ≠ .override) :
    ∀ {base addition result : List (String × Json)}, jsonFields active base addition = .ok result →
      ∀ key, Kept Json.Conserved (Entries.get? base key) (Entries.get? result key)
  | _, [], _, h, key => by
    rw [jsonFields] at h
    cases h
    exact Kept.refl Json.Conserved.refl _
  | base, (k, value) :: rest, result, h, key => by
    obtain ⟨merged, hmerged, hrest⟩ := jsonFields_cons_eq_ok_iff.1 h
    refine Kept.trans ?_ (jsonFields_conserved hactive hrest key) fun _ _ _ => Json.Conserved.trans
    rw [Entries.get?_insert]
    by_cases hk : k = key
    · subst hk
      rw [if_pos rfl]
      cases hold : Entries.get? base k with
      | none => nofun
      | some old =>
        rw [hold, Joined.some_some_iff] at hmerged
        obtain ⟨_, ⟨⟩, hm⟩ := hmerged
        rintro _ ⟨⟩
        exact ⟨merged, rfl, json_conserved hactive hm⟩
    · rw [if_neg hk]
      exact Kept.refl Json.Conserved.refl _

end

theorem extras_conserved {active : Policy} (hactive : active ≠ .override)
    {base addition result : Extra} (h : extras active base addition = .ok result) :
    Extra.Conserved base result := by
  intro key
  refine (Keyed.get?_joinM h key).kept Json.Conserved.refl fun old new merged hm => ?_
  exact json_conserved hactive (within_eq_ok_iff.1 hm)

theorem Extra.Conserved.refl (extra : Extra) : Extra.Conserved extra extra :=
  fun _ => Kept.refl Json.Conserved.refl _

theorem Extra.Conserved.trans {a b c : Extra} (hab : Extra.Conserved a b)
    (hbc : Extra.Conserved b c) : Extra.Conserved a c :=
  KeptByKey.trans hab hbc fun _ _ _ => Json.Conserved.trans

/-! ## Members -/

/-- Every part of a type that is given stays the same. -/
structure TypeRef.Conserved (base result : TypeRef) : Prop where
  head : Kept Eq base.head result.head
  arguments : Kept Eq base.arguments result.arguments
  nullable : Kept Eq base.nullable result.nullable

theorem TypeRef.Conserved.refl (t : TypeRef) : TypeRef.Conserved t t :=
  ⟨.same _, .same _, .same _⟩

theorem TypeRef.Conserved.trans {a b c : TypeRef} (hab : TypeRef.Conserved a b)
    (hbc : TypeRef.Conserved b c) : TypeRef.Conserved a c :=
  ⟨hab.head.trans_eq hbc.head, hab.arguments.trans_eq hbc.arguments,
    hab.nullable.trans_eq hbc.nullable⟩

/-- What is kept of a constructor. -/
structure Constructor.Conserved (base result : Constructor) : Prop where
  signatures : base.signatures <+: result.signatures
  comment : Kept Eq base.comment result.comment
  exposed : Exposure.Conserved base.exposed result.exposed
  extra : Extra.Conserved base.extra result.extra

/-- What is kept of an iterator declaration; the empty kind counts as not given. -/
structure IteratorDecl.Conserved (base result : IteratorDecl) : Prop where
  kind : base.kind ≠ "" → result.kind = base.kind
  types : base.types <+: result.types
  readOnly : Kept Eq base.readOnly result.readOnly
  extra : Extra.Conserved base.extra result.extra

theorem Constructor.Conserved.refl (c : Constructor) : Constructor.Conserved c c :=
  ⟨List.prefix_refl _, Kept.same _, Kept.same _, .refl _⟩

theorem Constructor.Conserved.trans {a b c : Constructor} (hab : Constructor.Conserved a b)
    (hbc : Constructor.Conserved b c) : Constructor.Conserved a c :=
  ⟨hab.signatures.trans hbc.signatures, hab.comment.trans_eq hbc.comment,
    Kept.trans_eq hab.exposed hbc.exposed, hab.extra.trans hbc.extra⟩

theorem IteratorDecl.Conserved.refl (i : IteratorDecl) : IteratorDecl.Conserved i i :=
  ⟨fun _ => rfl, List.prefix_refl _, Kept.same _, .refl _⟩

theorem IteratorDecl.Conserved.trans {a b c : IteratorDecl} (hab : IteratorDecl.Conserved a b)
    (hbc : IteratorDecl.Conserved b c) : IteratorDecl.Conserved a c := by
  refine ⟨fun ha => ?_, hab.types.trans hbc.types, hab.readOnly.trans_eq hbc.readOnly,
    hab.extra.trans hbc.extra⟩
  have hb : b.kind = a.kind := hab.kind ha
  exact (hbc.kind (hb ▸ ha)).trans hb

section Members

variable {active : Policy} (hactive : active ≠ .override)
include hactive

theorem TypeRef.conserved_merge {base addition result : TypeRef}
    (h : base.merge active addition = .ok result) : TypeRef.Conserved base result := by
  have hm := TypeRef.merge_eq_ok_iff.1 h
  exact ⟨scalar_kept hactive hm.head, scalar_kept hactive hm.arguments,
    scalar_kept hactive hm.nullable⟩

theorem Constructor.conserved_merge {base addition result : Constructor}
    (h : base.merge active addition = .ok result) : Constructor.Conserved base result := by
  have hm := Constructor.merge_eq_ok_iff.1 h
  exact ⟨hm.signatures ▸ List.prefix_append _ _, scalar_kept hactive hm.comment,
    exposure_conserved hactive hm.exposed, extras_conserved hactive hm.extra⟩

theorem IteratorDecl.kind_of_mergeKind {base addition result : String} (hbase : base ≠ "")
    (h : mergeKind active base addition = .ok result) : result = base := by
  rw [mergeKind, if_neg hbase] at h
  split at h
  · exact (Except.ok.inj h).symm
  · exact (eq_of_settleBy hactive h).symm

theorem IteratorDecl.conserved_merge {base addition result : IteratorDecl}
    (h : base.merge active addition = .ok result) : IteratorDecl.Conserved base result := by
  have hm := IteratorDecl.merge_eq_ok_iff.1 h
  exact ⟨fun hbase => IteratorDecl.kind_of_mergeKind hactive hbase hm.kind,
    hm.types ▸ List.prefix_append _ _, scalar_kept hactive hm.readOnly,
    extras_conserved hactive hm.extra⟩

end Members

/-! ## Definitions -/

/-- What is kept of an interface, a mixin, a callback interface or a namespace. -/
structure Interface.Conserved (base result : Interface) : Prop where
  name : result.name = base.name
  parent : Kept Eq base.parent result.parent
  comment : Kept Eq base.comment result.comment
  constants : Kept (KeptByKey Eq) base.constants result.constants
  methods : Kept (KeptByKey Eq) base.methods result.methods
  properties : Kept (KeptByKey Eq) base.properties result.properties
  constructor : Kept Constructor.Conserved base.constructor result.constructor
  iterator : Kept IteratorDecl.Conserved base.iterator result.iterator
  exposed : Exposure.Conserved base.exposed result.exposed
  overrideExposed : Exposure.Conserved base.overrideExposed result.overrideExposed
  implements : Kept Eq base.implements result.implements
  deprecated : Kept Eq base.deprecated result.deprecated
  extra : Extra.Conserved base.extra result.extra

/-- What is kept of a dictionary. -/
structure Dictionary.Conserved (base result : Dictionary) : Prop where
  name : result.name = base.name
  parent : Kept Eq base.parent result.parent
  comment : Kept Eq base.comment result.comment
  members : Kept (KeptByKey Eq) base.members result.members
  extra : Extra.Conserved base.extra result.extra

/-- What is kept of an enumeration. -/
structure Enumeration.Conserved (base result : Enumeration) : Prop where
  name : result.name = base.name
  values : base.values <+: result.values
  comment : Kept Eq base.comment result.comment
  extra : Extra.Conserved base.extra result.extra

/-- What is kept of a callback function. -/
structure CallbackFunction.Conserved (base result : CallbackFunction) : Prop where
  name : result.name = base.name
  signatures : base.signatures <+: result.signatures
  comment : Kept Eq base.comment result.comment
  extra : Extra.Conserved base.extra result.extra

/-- What is kept of a type definition. -/
structure Typedef.Conserved (base result : Typedef) : Prop where
  name : result.name = base.name
  type : TypeRef.Conserved base.type result.type
  comment : Kept Eq base.comment result.comment
  extra : Extra.Conserved base.extra result.extra

theorem Interface.Conserved.refl (i : Interface) : Interface.Conserved i i := by
  have hmembers {β : Type} (o : Option (Keyed β)) : Kept (KeptByKey Eq) o o :=
    Kept.refl (fun _ _ => .same _) o
  exact ⟨rfl, .same _, .same _, hmembers _, hmembers _, hmembers _, Kept.refl .refl _,
    Kept.refl .refl _, .same _, .same _, .same _, .same _, .refl _⟩

theorem Interface.Conserved.trans {a b c : Interface} (hab : Interface.Conserved a b)
    (hbc : Interface.Conserved b c) : Interface.Conserved a c := by
  have hmembers {β : Type} {x y z : Option (Keyed β)} (hxy : Kept (KeptByKey Eq) x y)
      (hyz : Kept (KeptByKey Eq) y z) : Kept (KeptByKey Eq) x z :=
    hxy.trans hyz fun _ _ _ h h' => h.trans h' fun _ _ _ => Eq.trans
  exact
    { name := hbc.name.trans hab.name
      parent := hab.parent.trans_eq hbc.parent
      comment := hab.comment.trans_eq hbc.comment
      constants := hmembers hab.constants hbc.constants
      methods := hmembers hab.methods hbc.methods
      properties := hmembers hab.properties hbc.properties
      constructor := hab.constructor.trans hbc.constructor fun _ _ _ => Constructor.Conserved.trans
      iterator := hab.iterator.trans hbc.iterator fun _ _ _ => IteratorDecl.Conserved.trans
      exposed := Kept.trans_eq hab.exposed hbc.exposed
      overrideExposed := Kept.trans_eq hab.overrideExposed hbc.overrideExposed
      implements := hab.implements.trans_eq hbc.implements
      deprecated := hab.deprecated.trans_eq hbc.deprecated
      extra := hab.extra.trans hbc.extra }

theorem Dictionary.Conserved.refl (d : Dictionary) : Dictionary.Conserved d d :=
  ⟨rfl, .same _, .same _, Kept.refl (fun _ _ => .same _) _, .refl _⟩

theorem Enumeration.Conserved.refl (e : Enumeration) : Enumeration.Conserved e e :=
  ⟨rfl, List.prefix_refl _, .same _, .refl _⟩

theorem CallbackFunction.Conserved.refl (c : CallbackFunction) : CallbackFunction.Conserved c c :=
  ⟨rfl, List.prefix_refl _, .same _, .refl _⟩

theorem Typedef.Conserved.refl (t : Typedef) : Typedef.Conserved t t :=
  ⟨rfl, .refl _, .same _, .refl _⟩

theorem Typedef.Conserved.trans {a b c : Typedef} (hab : Typedef.Conserved a b)
    (hbc : Typedef.Conserved b c) : Typedef.Conserved a c :=
  ⟨hbc.name.trans hab.name, hab.type.trans hbc.type, hab.comment.trans_eq hbc.comment,
    hab.extra.trans hbc.extra⟩

theorem extend_ne_override : Policy.extend ≠ .override := nofun

theorem reject_ne_override : Policy.reject ≠ .override := nofun

/-- The fields of an interface may be filled, and its members, its constructor and its iterator fall
under `reject`. -/
theorem Interface.conserved_merge {base addition result : Interface}
    (h : base.merge .additive addition = .ok result) : Interface.Conserved base result := by
  have hm := Interface.merge_eq_ok_iff.1 h
  exact
    { name := hm.name
      parent := scalar_kept extend_ne_override hm.parent
      comment := scalar_kept extend_ne_override hm.comment
      constants := kept_collection_reject hm.constants
      methods := kept_collection_reject hm.methods
      properties := kept_collection_reject hm.properties
      constructor := (optional_eq_ok_iff.1 hm.constructor).kept Constructor.Conserved.refl
        fun _ _ _ => Constructor.conserved_merge reject_ne_override
      iterator := (optional_eq_ok_iff.1 hm.iterator).kept IteratorDecl.Conserved.refl
        fun _ _ _ => IteratorDecl.conserved_merge reject_ne_override
      exposed := exposure_conserved extend_ne_override hm.exposed
      overrideExposed := exposure_conserved extend_ne_override hm.overrideExposed
      implements := grown_kept extend_ne_override hm.implements
      deprecated := grown_kept extend_ne_override hm.deprecated
      extra := extras_conserved extend_ne_override hm.extra }

theorem Dictionary.conserved_merge {base addition result : Dictionary}
    (h : base.merge .additive addition = .ok result) : Dictionary.Conserved base result := by
  have hm := Dictionary.merge_eq_ok_iff.1 h
  exact ⟨hm.name, scalar_kept extend_ne_override hm.parent,
    scalar_kept extend_ne_override hm.comment, kept_collection_reject hm.members,
    extras_conserved extend_ne_override hm.extra⟩

section Entries

variable {active : Policy} (hactive : active ≠ .override)
include hactive

/-- New values come behind the old ones. -/
theorem Enumeration.conserved_merge {base addition result : Enumeration}
    (h : base.merge active addition = .ok result) : Enumeration.Conserved base result := by
  have hm := Enumeration.merge_eq_ok_iff.1 h
  have hvalues : base.values <+: result.values := by
    rw [hm.values, unionNames_eq, joinedNames]
    exact List.prefix_append _ _
  exact ⟨hm.name, hvalues, scalar_kept hactive hm.comment, extras_conserved hactive hm.extra⟩

theorem CallbackFunction.conserved_merge {base addition result : CallbackFunction}
    (h : base.merge active addition = .ok result) : CallbackFunction.Conserved base result := by
  have hm := CallbackFunction.merge_eq_ok_iff.1 h
  exact ⟨hm.name, hm.signatures ▸ List.prefix_append _ _, scalar_kept hactive hm.comment,
    extras_conserved hactive hm.extra⟩

theorem Typedef.conserved_merge {base addition result : Typedef}
    (h : base.merge active addition = .ok result) : Typedef.Conserved base result := by
  have hm := Typedef.merge_eq_ok_iff.1 h
  exact ⟨hm.name, TypeRef.conserved_merge hactive hm.type, scalar_kept hactive hm.comment,
    extras_conserved hactive hm.extra⟩

end Entries

/-! ## Graphs -/

/-- What is kept of a graph. -/
structure Graph.Conserved (base result : Graph) : Prop where
  callbackFunctions : Kept (KeptByKey CallbackFunction.Conserved) base.callbackFunctions
    result.callbackFunctions
  callbackInterfaces : Kept (KeptByKey Interface.Conserved) base.callbackInterfaces
    result.callbackInterfaces
  dictionaries : Kept (KeptByKey Dictionary.Conserved) base.dictionaries result.dictionaries
  enums : Kept (KeptByKey Enumeration.Conserved) base.enums result.enums
  interfaces : Kept (KeptByKey Interface.Conserved) base.interfaces result.interfaces
  mixins : Kept (KeptByKey Interface.Conserved) base.mixins result.mixins
  typedefs : Kept (KeptInPlace Typedef.Conserved) base.typedefs result.typedefs
  namespaces : Kept (KeptInPlace Interface.Conserved) base.namespaces result.namespaces
  extra : Extra.Conserved base.extra result.extra

theorem Graph.namespaces_kept {base addition result : Option (List Interface)}
    (h : mergeNamespaceLists .additive base addition = .ok result) :
    Kept (KeptInPlace Interface.Conserved) base result := by
  cases addition with
  | none =>
    cases h
    exact Kept.refl (fun _ _ => Kept.refl Interface.Conserved.refl _) _
  | some items =>
    obtain ⟨merged, hm, rfl⟩ := map_eq_ok_iff.1 h
    rintro old ⟨⟩
    refine ⟨merged, rfl, ?_⟩
    exact kept_identified Interface.Conserved.refl (fun _ _ _ => Interface.Conserved.trans)
      (fun _ _ _ _ => Interface.conserved_merge) hm

/-- **Additions are conservative**: what they are merged into keeps everything that it says, and only
says more. -/
theorem Graph.mergeAdditions_conserves {g additions result : Graph}
    (h : g.mergeAdditions additions = .ok result) : Graph.Conserved g result := by
  have hm := Graph.merge_eq_ok_iff.1 (mapError_eq_ok_iff.1 h)
  have hinterfaces {field entries : String} {base addition merged : Option (Keyed Interface)}
      (hc : collection .extend field entries (Interface.merge .additive) base addition =
        .ok merged) : Kept (KeptByKey Interface.Conserved) base merged :=
    kept_collection Interface.Conserved.refl (fun _ _ _ _ => Interface.conserved_merge) hc
  have htypedefs : ∀ old new merged : List Typedef,
      within "typedef" (mergeTypedefs .extend old new) = .ok merged →
        KeptInPlace Typedef.Conserved old merged := fun _ _ _ hmerged =>
    kept_identified Typedef.Conserved.refl (fun _ _ _ => Typedef.Conserved.trans)
      (fun _ _ _ _ => Typedef.conserved_merge extend_ne_override) (within_eq_ok_iff.1 hmerged)
  exact
    { callbackFunctions := kept_collection CallbackFunction.Conserved.refl
        (fun _ _ _ _ => CallbackFunction.conserved_merge extend_ne_override) hm.callbackFunctions
      callbackInterfaces := hinterfaces hm.callbackInterfaces
      dictionaries := kept_collection Dictionary.Conserved.refl
        (fun _ _ _ _ => Dictionary.conserved_merge) hm.dictionaries
      enums := kept_collection Enumeration.Conserved.refl
        (fun _ _ _ _ => Enumeration.conserved_merge extend_ne_override) hm.enums
      interfaces := hinterfaces hm.interfaces
      mixins := hinterfaces hm.mixins
      typedefs := (optional_eq_ok_iff.1 hm.typedefs).kept
        (fun _ _ => Kept.refl Typedef.Conserved.refl _) htypedefs
      namespaces := Graph.namespaces_kept hm.namespaces
      extra := extras_conserved extend_ne_override hm.extra }

/-- A graph with an interface, an enumeration, a type definition and a namespace. -/
def harborGraph : Graph where
  interfaces := some (.ofList [("Harbor", {
    name := "Harbor"
    comment := some "A place for ships."
    methods := some (.ofList [("dock", { name := "dock", signatures := [{}] })])
    iterator := some { kind := "setlike" }
    exposed := some (.ofList ["Window"])
    extra := .ofList [("tags", .obj [("depth", .num (.int 7))])] })])
  enums := some (.ofList [("Tide", { name := "Tide", values := ["low"] })])
  typedefs := some [{ name := "Berth", type := ⟨some (.named "long"), none, none⟩ }]
  namespaces := some [{ name := "Sea" }]

/-- What is added to `harborGraph`: a method, a parent, an extra field, an interface and a type. -/
def harborAdditions : Graph where
  interfaces := some (.ofList [
    ("Harbor", {
      name := "Harbor"
      parent := some "Place"
      methods := some (.ofList [("leave", { name := "leave", signatures := [{}] })])
      exposed := some (.ofList ["Window"])
      extra := .ofList [("tags", .obj [("width", .num (.int 3))])] }),
    ("Pier", { name := "Pier" })])
  typedefs := some [{ name := "Berth", comment := some "A number." }, { name := "Crane" }]

theorem harborGraph_conserved :
    ∃ result, harborGraph.mergeAdditions harborAdditions = .ok result ∧
      (result.interface? "Harbor").bind (·.parent) = some "Place" ∧
      (result.interface? "Pier").isSome = true ∧ Graph.Conserved harborGraph result := by
  have h : harborGraph.mergeAdditions harborAdditions = .ok
      { harborGraph with
        interfaces := some (.ofList [
          ("Harbor", {
            name := "Harbor"
            parent := some "Place"
            comment := some "A place for ships."
            methods := some (.ofList [("dock", { name := "dock", signatures := [{}] }),
              ("leave", { name := "leave", signatures := [{}] })])
            iterator := some { kind := "setlike" }
            exposed := some (.ofList ["Window"])
            extra := .ofList [("tags",
              .obj [("depth", .num (.int 7)), ("width", .num (.int 3))])] }),
          ("Pier", { name := "Pier" })])
        typedefs := some [
          { name := "Berth", type := ⟨some (.named "long"), none, none⟩, comment := some "A number." },
          { name := "Crane" }] } := by decide +kernel
  exact ⟨_, h, by decide +kernel, by decide +kernel, Graph.mergeAdditions_conserves h⟩

end IdlDecls
