import IdlDecls.Integration.Integrate
import IdlDecls.Proofs.Merge.Associates
import IdlDecls.Proofs.Merge.Distinct

/-!
# Overriding merges of three graphs

Of three graphs without extra fields it makes no difference whether the second and the third are
merged into the first one after the other or together (`Graph.merge_override_assoc`), so overriding
types and comments may be kept in one file. The one exception are the signs of float zeros in JSON
values: a value stays where a new one differs only in them, so a zero that comes back after another
number is the new zero in one grouping and the old one in the other
(`merge_override_not_associative`). The proof goes from type to type along the fields, for any
reading `E` of JSON values under which replacing them is associative.
-/

namespace IdlDecls

open Merge Merging

attribute [ext] Constant Method Property Constructor IteratorDecl Member Interface Dictionary
  Enumeration CallbackFunction Typedef Graph

/-! ## Graphs without extra fields -/

section Bare

variable (V : Json → Prop)

/-- A constant without extra fields, whose value is as `V` says. -/
structure Constant.Bare (c : Constant) : Prop where
  value : ∀ v ∈ c.value, V v
  extra : c.extra = ∅

/-- A dictionary member without extra fields, whose default is as `V` says. -/
structure Member.Bare (m : Member) : Prop where
  default : ∀ v ∈ m.default, V v
  extra : m.extra = ∅

/-- An interface without extra fields of its own or of its parts. -/
structure Interface.Bare (i : Interface) : Prop where
  constants : EachEntry (fun _ => Constant.Bare V) i.constants
  methods : EachEntry (fun _ m => m.extra = ∅) i.methods
  properties : EachEntry (fun _ p => p.extra = ∅) i.properties
  constructor : ∀ x ∈ i.constructor, x.extra = ∅
  iterator : ∀ d ∈ i.iterator, d.extra = ∅
  extra : i.extra = ∅

/-- A dictionary without extra fields of its own or of its members. -/
structure Dictionary.Bare (d : Dictionary) : Prop where
  members : EachEntry (fun _ => Member.Bare V) d.members
  extra : d.extra = ∅

/-- A graph without extra fields on any level that is merged, and with JSON values as `V` says. -/
structure Graph.Bare (g : Graph) : Prop where
  callbackFunctions : EachEntry (fun _ f => f.extra = ∅) g.callbackFunctions
  callbackInterfaces : EachEntry (fun _ => Interface.Bare V) g.callbackInterfaces
  dictionaries : EachEntry (fun _ => Dictionary.Bare V) g.dictionaries
  enums : EachEntry (fun _ e => e.extra = ∅) g.enums
  interfaces : EachEntry (fun _ => Interface.Bare V) g.interfaces
  mixins : EachEntry (fun _ => Interface.Bare V) g.mixins
  typedefs : ∀ items ∈ g.typedefs, ∀ t ∈ items, t.extra = ∅
  namespaces : ∀ items ∈ g.namespaces, ∀ i ∈ items, i.Bare V
  extra : g.extra = ∅

variable [∀ v, Decidable (V v)]

instance (c : Constant) : Decidable (c.Bare V) :=
  decidable_of_iff (_ ∧ _) ⟨fun h => ⟨h.1, h.2⟩, fun h => ⟨h.1, h.2⟩⟩

instance (m : Member) : Decidable (m.Bare V) :=
  decidable_of_iff (_ ∧ _) ⟨fun h => ⟨h.1, h.2⟩, fun h => ⟨h.1, h.2⟩⟩

instance (i : Interface) : Decidable (i.Bare V) :=
  decidable_of_iff (_ ∧ _ ∧ _ ∧ _ ∧ _ ∧ _)
    ⟨fun ⟨h, h', h'', h₃, h₄, h₅⟩ => ⟨h, h', h'', h₃, h₄, h₅⟩,
      fun h => ⟨h.constants, h.methods, h.properties, h.constructor, h.iterator, h.extra⟩⟩

instance (d : Dictionary) : Decidable (d.Bare V) :=
  decidable_of_iff (_ ∧ _) ⟨fun h => ⟨h.1, h.2⟩, fun h => ⟨h.1, h.2⟩⟩

instance (g : Graph) : Decidable (g.Bare V) :=
  decidable_of_iff (_ ∧ _ ∧ _ ∧ _ ∧ _ ∧ _ ∧ _ ∧ _ ∧ _)
    ⟨fun ⟨h, h', h'', h₃, h₄, h₅, h₆, h₇, h₈⟩ => ⟨h, h', h'', h₃, h₄, h₅, h₆, h₇, h₈⟩,
      fun h => ⟨h.callbackFunctions, h.callbackInterfaces, h.dictionaries, h.enums, h.interfaces,
        h.mixins, h.typedefs, h.namespaces, h.extra⟩⟩

end Bare

/-! ## Graphs with like values -/

section Alike

variable (E : Json → Json → Prop)

/-- Two constants that differ at most in their values, which `E` relates. -/
structure Constant.Alike (c d : Constant) : Prop where
  value : Option.Rel E c.value d.value
  others : { c with value := d.value } = d

/-- Two dictionary members that differ at most in their defaults, which `E` relates. -/
structure Member.Alike (m n : Member) : Prop where
  default : Option.Rel E m.default n.default
  others : { m with default := n.default } = n

/-- Two interfaces that differ at most in the values of their constants. -/
structure Interface.Alike (i j : Interface) : Prop where
  constants : AlikeEntries (Constant.Alike E) i.constants j.constants
  others : { i with constants := j.constants } = j

/-- Two dictionaries that differ at most in the defaults of their members. -/
structure Dictionary.Alike (d e : Dictionary) : Prop where
  members : AlikeEntries (Member.Alike E) d.members e.members
  others : { d with members := e.members } = e

/-- Two graphs that differ at most in the values of constants and in the defaults of dictionary
members, which `E` relates. -/
structure Graph.Alike (g h : Graph) : Prop where
  callbackInterfaces : AlikeEntries (Interface.Alike E) g.callbackInterfaces h.callbackInterfaces
  dictionaries : AlikeEntries (Dictionary.Alike E) g.dictionaries h.dictionaries
  interfaces : AlikeEntries (Interface.Alike E) g.interfaces h.interfaces
  mixins : AlikeEntries (Interface.Alike E) g.mixins h.mixins
  namespaces : Option.Rel (List.Forall₂ (Interface.Alike E)) g.namespaces h.namespaces
  others : { g with
    callbackInterfaces := h.callbackInterfaces
    dictionaries := h.dictionaries
    interfaces := h.interfaces
    mixins := h.mixins
    namespaces := h.namespaces } = h

variable {E}

theorem AlikeEntries.refl {α : Type} {S : α → α → Prop} (hS : ∀ x, S x x) (c : Option (Keyed α)) :
    AlikeEntries S c c :=
  ⟨rfl, fun _ => optionRel_refl hS _⟩

variable (hE : ∀ v, E v v)

include hE

theorem Constant.Alike.refl (c : Constant) : c.Alike E c := ⟨optionRel_refl hE _, rfl⟩

theorem Member.Alike.refl (m : Member) : m.Alike E m := ⟨optionRel_refl hE _, rfl⟩

theorem Interface.Alike.refl (i : Interface) : i.Alike E i :=
  ⟨.refl (Constant.Alike.refl hE) _, rfl⟩

theorem Dictionary.Alike.refl (d : Dictionary) : d.Alike E d :=
  ⟨.refl (Member.Alike.refl hE) _, rfl⟩

end Alike

section AlikeEq

variable {α : Type}

theorem AlikeEntries.mono {S T : α → α → Prop} {c d : Option (Keyed α)} (h : AlikeEntries S c d)
    (hST : ∀ x y, S x y → T x y) : AlikeEntries T c d :=
  ⟨h.isSome, fun key => optionRel_mono hST (h.entries key)⟩

/-- Values that are the same leave nothing to differ in. -/
theorem Constant.Alike.eq {c d : Constant} (h : c.Alike Eq d) : c = d := by
  rw [← h.others, ← eq_of_optionRel h.value]

theorem Member.Alike.eq {m n : Member} (h : m.Alike Eq n) : m = n := by
  rw [← h.others, ← eq_of_optionRel h.default]

theorem Interface.Alike.eq {i j : Interface} (h : i.Alike Eq j) : i = j := by
  rw [← h.others, ← (h.constants.mono fun _ _ => Constant.Alike.eq).eq]

theorem Dictionary.Alike.eq {d e : Dictionary} (h : d.Alike Eq e) : d = e := by
  rw [← h.others, ← (h.members.mono fun _ _ => Member.Alike.eq).eq]

theorem Graph.Alike.eq {g h : Graph} (halike : g.Alike Eq h) : g = h := by
  have hinterfaces {c d : Option (Keyed Interface)} (hcd : AlikeEntries (Interface.Alike Eq) c d) :
      c = d := (hcd.mono fun _ _ => Interface.Alike.eq).eq
  have hdictionaries := (halike.dictionaries.mono fun _ _ => Dictionary.Alike.eq).eq
  have hnamespaces : g.namespaces = h.namespaces :=
    eq_of_optionRel <| optionRel_mono (fun _ _ hlists =>
      List.forall₂_eq_eq_eq ▸ hlists.imp fun _ _ => Interface.Alike.eq) halike.namespaces
  rw [← halike.others, ← hinterfaces halike.callbackInterfaces, ← hdictionaries,
    ← hinterfaces halike.interfaces, ← hinterfaces halike.mixins, ← hnamespaces]

end AlikeEq

/-! ## JSON values -/

/-- Two JSON values that differ at most in the signs of float zeros. -/
def Json.SameUnsigned (j k : Json) : Prop := j.unsignedZeros = k.unsignedZeros

/-- A JSON value without a negative float zero. -/
def Json.Unsigned (j : Json) : Prop := j.unsignedZeros = j

instance (j : Json) : Decidable j.Unsigned :=
  inferInstanceAs (Decidable (_ = _))

/-- The groupings part only where the third value differs from the first in signs alone and the
second from both by more: then one grouping leaves the third, and the other leaves the first. -/
theorem Json.replacedBy_groupings (a b c : Json) :
    (a.replacedBy b).replacedBy c = a.replacedBy (b.replacedBy c) ∨
      (a.replacedBy b).replacedBy c = c ∧ a.replacedBy (b.replacedBy c) = a ∧
        Json.SameUnsigned c a := by
  by_cases hab : b.unsignedZeros = a.unsignedZeros
  · -- the second value leaves the first, and what leaves one of them leaves both
    have hstays : a.replacedBy b = a := if_pos hab
    rw [hstays]
    by_cases hbc : c.unsignedZeros = b.unsignedZeros
    · have hbstays : b.replacedBy c = b := if_pos hbc
      have hastays : a.replacedBy c = a := if_pos (hbc.trans hab)
      rw [hbstays, hastays, hstays]
      exact Or.inl rfl
    · have hreplaces : b.replacedBy c = c := if_neg hbc
      rw [hreplaces]
      exact Or.inl rfl
  · have hreplaces : a.replacedBy b = b := if_neg hab
    rw [hreplaces]
    by_cases hbc : c.unsignedZeros = b.unsignedZeros
    · have hstays : b.replacedBy c = b := if_pos hbc
      rw [hstays, hreplaces]
      exact Or.inl rfl
    · have hcomes : b.replacedBy c = c := if_neg hbc
      rw [hcomes]
      by_cases hac : c.unsignedZeros = a.unsignedZeros
      · exact Or.inr ⟨rfl, if_pos hac, hac⟩
      · have hlast : a.replacedBy c = c := if_neg hac
        exact Or.inl hlast.symm

/-- A relation of JSON values is kept by both groupings of values as `V` says. -/
structure Json.Replaceable (V : Json → Prop) (E : Json → Json → Prop) : Prop where
  refl : ∀ v, E v v
  assoc : ∀ a b c, V a → V b → V c →
    E ((a.replacedBy b).replacedBy c) (a.replacedBy (b.replacedBy c))

/-- Up to the signs of zeros, the grouping makes no difference. -/
theorem Json.replaceable_sameUnsigned : Json.Replaceable (fun _ => True) Json.SameUnsigned where
  refl _ := rfl
  assoc a b c _ _ _ := by
    rcases Json.replacedBy_groupings a b c with h | ⟨hleft, hright, hsame⟩
    · rw [h]
      exact rfl
    · rw [hleft, hright]
      exact hsame

/-- Without negative zeros, the grouping makes no difference at all. -/
theorem Json.replaceable_eq : Json.Replaceable Json.Unsigned Eq where
  refl _ := rfl
  assoc a b c ha _ hc := by
    rcases Json.replacedBy_groupings a b c with h | ⟨hleft, hright, hsame⟩
    · exact h
    · rw [hleft, hright]
      exact hc.symm.trans (hsame.trans ha)

/-! ## Fields -/

section Fields

variable {α : Type}

/-- The name is that of the first value in both groupings. -/
theorem name_associates {a ab left right : α} (hab : ab = a) (hleft : left = ab)
    (hright : right = a) : left = right :=
  (hleft.trans hab).trans hright.symm

theorem or_associates {a b c : Option α} :
    Associates (fun old new merged => merged = new.or old) Eq a b c :=
  .operation or_or_assoc

theorem append_associates {a b c : List α} :
    Associates (fun old new merged => merged = old ++ new) Eq a b c :=
  .operation List.append_assoc

theorem mark_associates {a b c : Option Bool} :
    Associates (Joined fun old new merged => merged = (old || new)) Eq a b c :=
  .optional Bool.or_assoc

theorem kind_associates {a b c : String} :
    Associates (fun old new merged => merged = if new = "" then old else new) Eq a b c := by
  refine .operation (f := fun old new => if new = "" then old else new) fun a b c => ?_
  by_cases hc : c = ""
  · simp only [if_pos hc]
  · simp only [if_neg hc]

theorem literal_associates {V : Json → Prop} {E : Json → Json → Prop}
    (hVE : Json.Replaceable V E) {a b c : Option Json} (ha : ∀ v ∈ a, V v) (hb : ∀ v ∈ b, V v)
    (hc : ∀ v ∈ c, V v) :
    Associates (Joined fun old new merged => merged = old.replacedBy new) (Option.Rel E) a b c := by
  refine .joined (fun _ _ _ _ h h' => h.trans h'.symm) hVE.refl fun x hx y hy z hz => ?_
  rintro _ _ left right rfl rfl rfl rfl
  exact hVE.assoc x y z (ha x hx) (hb y hy) (hc z hz)

end Fields

/-! ## Members -/

theorem TypeRef.ext_parts {t u : TypeRef} (hhead : t.head = u.head)
    (harguments : t.arguments = u.arguments) (hnullable : t.nullable = u.nullable) : t = u := by
  cases t
  cases u
  cases hhead
  cases harguments
  cases hnullable
  rfl

theorem TypeRef.associates {a b c : TypeRef} : Associates TypeRef.Overridden Eq a b c :=
  fun _ _ _ _ hab hleft hbc hright => TypeRef.ext_parts
    (or_associates hab.head hleft.head hbc.head hright.head)
    (or_associates hab.arguments hleft.arguments hbc.arguments hright.arguments)
    (or_associates hab.nullable hleft.nullable hbc.nullable hright.nullable)

theorem Method.associates {a b c : Method} (ha : a.extra = ∅) (hb : b.extra = ∅)
    (hc : c.extra = ∅) : Associates Method.Overridden Eq a b c :=
  fun _ _ _ _ hab hleft hbc hright => Method.ext
    (name_associates hab.name hleft.name hright.name)
    (append_associates hab.signatures hleft.signatures hbc.signatures hright.signatures)
    (or_associates hab.isStatic hleft.isStatic hbc.isStatic hright.isStatic)
    (or_associates hab.comment hleft.comment hbc.comment hright.comment)
    (exposure_associates hab.exposed hleft.exposed hbc.exposed hright.exposed)
    (mark_associates hab.deprecated hleft.deprecated hbc.deprecated
      hright.deprecated)
    (extra_associates ha hb hc hab.extra hleft.extra hbc.extra hright.extra)

theorem Property.associates {a b c : Property} (ha : a.extra = ∅) (hb : b.extra = ∅)
    (hc : c.extra = ∅) : Associates Property.Overridden Eq a b c :=
  fun _ _ _ _ hab hleft hbc hright => Property.ext
    (name_associates hab.name hleft.name hright.name)
    (TypeRef.associates hab.type hleft.type hbc.type hright.type)
    (or_associates hab.readOnly hleft.readOnly hbc.readOnly hright.readOnly)
    (or_associates hab.isStatic hleft.isStatic hbc.isStatic hright.isStatic)
    (or_associates hab.comment hleft.comment hbc.comment hright.comment)
    (exposure_associates hab.exposed hleft.exposed hbc.exposed hright.exposed)
    (mark_associates hab.deprecated hleft.deprecated hbc.deprecated
      hright.deprecated)
    (extra_associates ha hb hc hab.extra hleft.extra hbc.extra hright.extra)

theorem Constructor.associates {a b c : Constructor} (ha : a.extra = ∅) (hb : b.extra = ∅)
    (hc : c.extra = ∅) : Associates Constructor.Overridden Eq a b c :=
  fun _ _ _ _ hab hleft hbc hright => Constructor.ext
    (append_associates hab.signatures hleft.signatures hbc.signatures hright.signatures)
    (or_associates hab.comment hleft.comment hbc.comment hright.comment)
    (exposure_associates hab.exposed hleft.exposed hbc.exposed hright.exposed)
    (extra_associates ha hb hc hab.extra hleft.extra hbc.extra hright.extra)

theorem IteratorDecl.associates {a b c : IteratorDecl} (ha : a.extra = ∅) (hb : b.extra = ∅)
    (hc : c.extra = ∅) : Associates IteratorDecl.Overridden Eq a b c :=
  fun _ _ _ _ hab hleft hbc hright => IteratorDecl.ext
    (kind_associates hab.kind hleft.kind hbc.kind hright.kind)
    (append_associates hab.types hleft.types hbc.types hright.types)
    (or_associates hab.readOnly hleft.readOnly hbc.readOnly hright.readOnly)
    (extra_associates ha hb hc hab.extra hleft.extra hbc.extra hright.extra)

section Valued

variable {V : Json → Prop} {E : Json → Json → Prop} (hVE : Json.Replaceable V E)

include hVE

theorem Constant.associates {a b c : Constant} (ha : a.Bare V) (hb : b.Bare V) (hc : c.Bare V) :
    Associates Constant.Overridden (Constant.Alike E) a b c :=
  fun _ _ _ _ hab hleft hbc hright =>
    { value := literal_associates hVE ha.value hb.value hc.value hab.value hleft.value hbc.value
        hright.value
      others := Constant.ext
        (name_associates hab.name hleft.name hright.name)
        (TypeRef.associates hab.type hleft.type hbc.type hright.type)
        rfl
        (or_associates hab.comment hleft.comment hbc.comment hright.comment)
        (exposure_associates hab.exposed hleft.exposed hbc.exposed hright.exposed)
        (extra_associates ha.extra hb.extra hc.extra hab.extra hleft.extra hbc.extra
          hright.extra) }

theorem Member.associates {a b c : Member} (ha : a.Bare V) (hb : b.Bare V) (hc : c.Bare V) :
    Associates Member.Overridden (Member.Alike E) a b c :=
  fun _ _ _ _ hab hleft hbc hright =>
    { default := literal_associates hVE ha.default hb.default hc.default hab.default hleft.default
        hbc.default hright.default
      others := Member.ext
        (name_associates hab.name hleft.name hright.name)
        (TypeRef.associates hab.type hleft.type hbc.type hright.type)
        (or_associates hab.required hleft.required hbc.required hright.required)
        rfl
        (or_associates hab.comment hleft.comment hbc.comment hright.comment)
        (extra_associates ha.extra hb.extra hc.extra hab.extra hleft.extra hbc.extra
          hright.extra) }

/-! ## Definitions -/

theorem Interface.associates {a b c : Interface} (ha : a.Bare V) (hb : b.Bare V) (hc : c.Bare V) :
    Associates Interface.Overridden (Interface.Alike E) a b c := by
  have hconstants := Associates.collection
    (functional_of_merge fun _ _ _ => Constant.merge_override_iff)
    (Constant.Alike.refl hVE.refl) ha.constants hb.constants hc.constants
    fun _ _ _ => Constant.associates hVE
  have hmethods := Associates.collection
    (functional_of_merge fun _ _ _ => Method.merge_override_iff) (fun _ => rfl) ha.methods
    hb.methods hc.methods fun _ _ _ => Method.associates
  have hproperties := Associates.collection
    (functional_of_merge fun _ _ _ => Property.merge_override_iff) (fun _ => rfl) ha.properties
    hb.properties hc.properties fun _ _ _ => Property.associates
  have hconstructor := Associates.joined
    (functional_of_merge fun _ _ _ => Constructor.merge_override_iff) (fun _ => rfl)
    fun x hx y hy z hz => Constructor.associates (ha.constructor x hx)
      (hb.constructor y hy) (hc.constructor z hz)
  have hiterator := Associates.joined
    (functional_of_merge fun _ _ _ => IteratorDecl.merge_override_iff) (fun _ => rfl)
    fun x hx y hy z hz => IteratorDecl.associates (ha.iterator x hx)
      (hb.iterator y hy) (hc.iterator z hz)
  intro ab bc left right hab hleft hbc hright
  refine ⟨hconstants hab.constants hleft.constants hbc.constants hright.constants, ?_⟩
  exact Interface.ext
    (name_associates hab.name hleft.name hright.name)
    (or_associates hab.parent hleft.parent hbc.parent hright.parent)
    (or_associates hab.comment hleft.comment hbc.comment hright.comment)
    rfl
    (hmethods hab.methods hleft.methods hbc.methods hright.methods).eq
    (hproperties hab.properties hleft.properties hbc.properties hright.properties).eq
    (eq_of_optionRel (hconstructor hab.constructor hleft.constructor hbc.constructor
      hright.constructor))
    (exposure_associates hab.exposed hleft.exposed hbc.exposed hright.exposed)
    (exposure_associates hab.overrideExposed hleft.overrideExposed hbc.overrideExposed
      hright.overrideExposed)
    (Associates.optional joinedNames_assoc hab.implements hleft.implements hbc.implements
      hright.implements)
    (eq_of_optionRel (hiterator hab.iterator hleft.iterator hbc.iterator hright.iterator))
    (mark_associates hab.deprecated hleft.deprecated hbc.deprecated
      hright.deprecated)
    (extra_associates ha.extra hb.extra hc.extra hab.extra hleft.extra hbc.extra hright.extra)

theorem Dictionary.associates {a b c : Dictionary} (ha : a.Bare V) (hb : b.Bare V)
    (hc : c.Bare V) : Associates Dictionary.Overridden (Dictionary.Alike E) a b c := by
  have hmembers := Associates.collection
    (functional_of_merge fun _ _ _ => Member.merge_override_iff) (Member.Alike.refl hVE.refl)
    ha.members hb.members hc.members
    fun _ _ _ => Member.associates hVE
  intro ab bc left right hab hleft hbc hright
  refine ⟨hmembers hab.members hleft.members hbc.members hright.members, ?_⟩
  exact Dictionary.ext
    (name_associates hab.name hleft.name hright.name)
    (or_associates hab.parent hleft.parent hbc.parent hright.parent)
    (or_associates hab.comment hleft.comment hbc.comment hright.comment)
    rfl
    (extra_associates ha.extra hb.extra hc.extra hab.extra hleft.extra hbc.extra hright.extra)

end Valued

theorem Enumeration.associates {a b c : Enumeration} (ha : a.extra = ∅) (hb : b.extra = ∅)
    (hc : c.extra = ∅) : Associates Enumeration.Overridden Eq a b c :=
  fun _ _ _ _ hab hleft hbc hright => Enumeration.ext
    (name_associates hab.name hleft.name hright.name)
    (Associates.operation joinedNames_assoc hab.values hleft.values hbc.values hright.values)
    (or_associates hab.comment hleft.comment hbc.comment hright.comment)
    (extra_associates ha hb hc hab.extra hleft.extra hbc.extra hright.extra)

theorem CallbackFunction.associates {a b c : CallbackFunction} (ha : a.extra = ∅)
    (hb : b.extra = ∅) (hc : c.extra = ∅) : Associates CallbackFunction.Overridden Eq a b c :=
  fun _ _ _ _ hab hleft hbc hright => CallbackFunction.ext
    (name_associates hab.name hleft.name hright.name)
    (append_associates hab.signatures hleft.signatures hbc.signatures hright.signatures)
    (or_associates hab.comment hleft.comment hbc.comment hright.comment)
    (extra_associates ha hb hc hab.extra hleft.extra hbc.extra hright.extra)

theorem Typedef.associates {a b c : Typedef} (ha : a.extra = ∅) (hb : b.extra = ∅)
    (hc : c.extra = ∅) : Associates Typedef.Overridden Eq a b c :=
  fun _ _ _ _ hab hleft hbc hright => Typedef.ext
    (name_associates hab.name hleft.name hright.name)
    (TypeRef.associates hab.type hleft.type hbc.type hright.type)
    (or_associates hab.comment hleft.comment hbc.comment hright.comment)
    (extra_associates ha hb hc hab.extra hleft.extra hbc.extra hright.extra)

/-! ## Graphs -/

theorem Typedef.name_of_overridden (old new merged : Typedef)
    (h : Typedef.Overridden old new merged) : merged.name = old.name :=
  h.name

theorem Interface.name_of_overridden (old new merged : Interface)
    (h : Interface.Overridden old new merged) : merged.name = old.name :=
  h.name

/-- Typedefs and namespaces of a merge of graphs that repeat no name repeat none either. -/
theorem Graph.Overridden.identitiesDistinct {base addition result : Graph}
    (hb : base.IdentitiesDistinct) (ha : addition.IdentitiesDistinct)
    (h : Graph.Overridden base addition result) : result.IdentitiesDistinct :=
  hb.merge ha ((Graph.merge_override_iff hb ha).2 h)

theorem Graph.associates {V : Json → Prop} {E : Json → Json → Prop} (hVE : Json.Replaceable V E)
    {a b c : Graph} (ha : a.Bare V) (hb : b.Bare V) (hc : c.Bare V) :
    Associates Graph.Overridden (Graph.Alike E) a b c := by
  have hinterface : Functional Interface.Overridden :=
    functional_of_merge fun _ _ _ => Interface.merge_override_iff
  have hfunctions := Associates.collection
    (functional_of_merge fun _ _ _ => CallbackFunction.merge_override_iff) (fun _ => rfl)
    ha.callbackFunctions hb.callbackFunctions hc.callbackFunctions
    fun _ _ _ => CallbackFunction.associates
  have hinterfaces {a b c : Option (Keyed Interface)} (ha : EachEntry (fun _ => Interface.Bare V) a)
      (hb : EachEntry (fun _ => Interface.Bare V) b)
      (hc : EachEntry (fun _ => Interface.Bare V) c) :
      Associates (Joined (ByKey Interface.Overridden)) (AlikeEntries (Interface.Alike E)) a b c :=
    .collection hinterface (Interface.Alike.refl hVE.refl) ha hb hc
      fun _ _ _ => Interface.associates hVE
  have hdictionaries := Associates.collection
    (functional_of_merge fun _ _ _ => Dictionary.merge_override_iff)
    (Dictionary.Alike.refl hVE.refl) ha.dictionaries hb.dictionaries hc.dictionaries
    fun _ _ _ => Dictionary.associates hVE
  have henums := Associates.collection
    (functional_of_merge fun _ _ _ => Enumeration.merge_override_iff) (fun _ => rfl) ha.enums
    hb.enums hc.enums fun _ _ _ => Enumeration.associates
  have htypedef : Functional Typedef.Overridden :=
    functional_of_merge fun _ _ _ => Typedef.merge_override_iff
  have htypedefs : Associates (Joined (ByIdentity Typedef.name Typedef.Overridden))
      (Option.Rel (List.Forall₂ Eq)) a.typedefs b.typedefs c.typedefs := by
    refine .joined htypedef.byIdentity (fun _ => List.forall₂_same.2 fun _ _ => rfl)
      fun l hl m hm n hn => ?_
    refine .byIdentity Typedef.name_of_overridden htypedef (fun _ => rfl) ?_
    exact fun x hx y hy z hz => Typedef.associates (ha.typedefs l hl x hx) (hb.typedefs m hm y hy)
      (hc.typedefs n hn z hz)
  have hnamespaces : Associates (Joined (ByIdentity Interface.name Interface.Overridden))
      (Option.Rel (List.Forall₂ (Interface.Alike E))) a.namespaces b.namespaces c.namespaces := by
    refine .joined hinterface.byIdentity
      (fun _ => List.forall₂_same.2 fun x _ => Interface.Alike.refl hVE.refl x)
      fun l hl m hm n hn => ?_
    refine .byIdentity Interface.name_of_overridden hinterface (Interface.Alike.refl hVE.refl) ?_
    exact fun x hx y hy z hz => Interface.associates hVE (ha.namespaces l hl x hx)
      (hb.namespaces m hm y hy) (hc.namespaces n hn z hz)
  intro ab bc left right hab hleft hbc hright
  have hsame := htypedefs hab.typedefs hleft.typedefs hbc.typedefs hright.typedefs
  rw [List.forall₂_eq_eq_eq] at hsame
  refine ⟨hinterfaces ha.callbackInterfaces hb.callbackInterfaces hc.callbackInterfaces
      hab.callbackInterfaces hleft.callbackInterfaces hbc.callbackInterfaces
      hright.callbackInterfaces,
    hdictionaries hab.dictionaries hleft.dictionaries hbc.dictionaries hright.dictionaries,
    hinterfaces ha.interfaces hb.interfaces hc.interfaces hab.interfaces hleft.interfaces
      hbc.interfaces hright.interfaces,
    hinterfaces ha.mixins hb.mixins hc.mixins hab.mixins hleft.mixins hbc.mixins hright.mixins,
    hnamespaces hab.namespaces hleft.namespaces hbc.namespaces hright.namespaces, ?_⟩
  exact Graph.ext
    (hfunctions hab.callbackFunctions hleft.callbackFunctions hbc.callbackFunctions
      hright.callbackFunctions).eq
    rfl rfl
    (henums hab.enums hleft.enums hbc.enums hright.enums).eq
    rfl rfl
    (eq_of_optionRel hsame)
    rfl
    (extra_associates ha.extra hb.extra hc.extra hab.extra hleft.extra hbc.extra hright.extra)

/-- **Overriding merges are associative, up to the signs of zeros.** Whether two graphs come to a
third one after the other or together makes no difference but in the signs of float zeros, and none
at all where no JSON value has a negative zero. So overriding types and then comments are merged as
the merge of both is. -/
theorem Graph.merge_override_assoc {a b c : Graph} (ha : a.IdentitiesDistinct)
    (hb : b.IdentitiesDistinct) (hc : c.IdentitiesDistinct) (hbareA : a.Bare fun _ => True)
    (hbareB : b.Bare fun _ => True) (hbareC : c.Bare fun _ => True) :
    ∃ ab bc left right, a.merge .override b = .ok ab ∧ ab.merge .override c = .ok left ∧
      b.merge .override c = .ok bc ∧ a.merge .override bc = .ok right ∧
      (a.mergeOverrides b >>= (·.mergeComments c)) = .ok left ∧ a.mergeOverrides bc = .ok right ∧
      left.Alike Json.SameUnsigned right ∧
      (a.Bare Json.Unsigned → b.Bare Json.Unsigned → c.Bare Json.Unsigned → left = right) := by
  obtain ⟨ab, hmergeAB⟩ := Graph.merge_override_total a b
  obtain ⟨bc, hmergeBC⟩ := Graph.merge_override_total b c
  obtain ⟨left, hmergeLeft⟩ := Graph.merge_override_total ab c
  obtain ⟨right, hmergeRight⟩ := Graph.merge_override_total a bc
  have hab := (Graph.merge_override_iff ha hb).1 hmergeAB
  have hbc := (Graph.merge_override_iff hb hc).1 hmergeBC
  have hleft := (Graph.merge_override_iff (hab.identitiesDistinct ha hb) hc).1 hmergeLeft
  have hright := (Graph.merge_override_iff ha (hbc.identitiesDistinct hb hc)).1 hmergeRight
  refine ⟨ab, bc, left, right, hmergeAB, hmergeLeft, hmergeBC, hmergeRight, ?_, ?_, ?_, ?_⟩
  · rw [Graph.mergeOverrides, hmergeAB]
    exact congrArg Merging.toIntegration hmergeLeft
  · rw [Graph.mergeOverrides, hmergeRight]
    rfl
  · exact Graph.associates Json.replaceable_sameUnsigned hbareA hbareB hbareC hab hleft hbc hright
  · intro hunsignedA hunsignedB hunsignedC
    exact (Graph.associates Json.replaceable_eq hunsignedA hunsignedB hunsignedC hab hleft hbc
      hright).eq

/-- Comments on the interface and on the new type definition of `meterChanges`, and a constant. -/
def meterComments : Graph where
  interfaces := some (.ofList [("Meter", {
    name := "Meter"
    comment := some "Reads a value."
    constants := some (.ofList [("LIMIT", { name := "LIMIT", value := some (.num (.int 10)) })]) })])
  typedefs := some [{ name := "Unit", type := .unspecified, comment := some "A unit." }]

theorem meterGraph_overrides_and_comments :
    ∃ both result, meterChanges.merge .override meterComments = .ok both ∧
      (meterGraph.mergeOverrides meterChanges >>= (·.mergeComments meterComments)) = .ok result ∧
      meterGraph.mergeOverrides both = .ok result := by
  obtain ⟨ab, both, left, right, -, -, hboth, -, hleft, hright, -, hsame⟩ :=
    @Graph.merge_override_assoc meterGraph meterChanges meterComments (by decide +kernel)
      (by decide +kernel) (by decide +kernel) (by decide +kernel) (by decide +kernel)
      (by decide +kernel)
  have heq := hsame (by decide +kernel) (by decide +kernel) (by decide +kernel)
  exact ⟨both, left, hboth, hleft, heq ▸ hright⟩

/-- The float one and a half. -/
def oneAndHalf : UInt64 := 0x3FF8000000000000

/-- A zero that replaces another number stays the new zero, but it does not replace the zero with a
minus sign that was there before the number. -/
theorem merge_override_not_associative :
    (∀ zero ∈ [Number.negativeZero, oneAndHalf, 0],
      (meterFloor zero).IdentitiesDistinct ∧ (meterFloor zero).Bare fun _ => True) ∧
    ∃ ab bc left right,
      (meterFloor Number.negativeZero).merge .override (meterFloor oneAndHalf) = .ok ab ∧
      ab.merge .override (meterFloor 0) = .ok left ∧
      (meterFloor oneAndHalf).merge .override (meterFloor 0) = .ok bc ∧
      (meterFloor Number.negativeZero).merge .override bc = .ok right ∧
      floorOf left = some (.num (.float 0)) ∧
      floorOf right = some (.num (.float Number.negativeZero)) ∧ left ≠ right := by
  refine ⟨?_, meterFloor oneAndHalf, meterFloor 0, meterFloor 0, meterFloor Number.negativeZero,
    by decide +kernel, by decide +kernel, by decide +kernel, by decide +kernel, by decide +kernel,
    by decide +kernel, by decide +kernel⟩
  -- The three cases are spelled out, as a decision might run through all words instead.
  simp only [List.forall_mem_cons, List.not_mem_nil, false_imp_iff, implies_true, and_true]
  decide +kernel

end IdlDecls
