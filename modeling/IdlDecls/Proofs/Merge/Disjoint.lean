import IdlDecls.Proofs.Merge.Overridden
import Mathlib.Data.List.Find

/-!
# Strict merges

Under `MergePolicy.strict` nothing may be defined on both sides. A merge then ends well exactly if no
kind of definitions has a name on both sides, and it is the union of both; else it fails at the first
name that both sides have, kind by kind in a fixed order (`Graph.merge_strict`). What carries this is
that each collection fails at the first shared name of its own, and that a run of merges fails where
the first of them does (`FailsAt`).
-/

namespace IdlDecls

open Merge Merging

variable {α β : Type}

/-! ## Where a merge fails -/

/-- A merge fails at a path, if there is one, and ends well otherwise. -/
def FailsAt (m : Merging α) (clash? : Option (List String)) : Prop :=
  match clash? with
  | none => ∃ result, m = .ok result
  | some path => m = .error ⟨path⟩

namespace FailsAt

theorem ok (result : α) : FailsAt (.ok result) none := ⟨result, rfl⟩

/-- A second merge fails only behind a first that ends well. -/
theorem bind {m : Merging α} {next : α → Merging β} {clash? clash?' : Option (List String)}
    (h : FailsAt m clash?) (hnext : ∀ result, m = .ok result → FailsAt (next result) clash?') :
    FailsAt (m >>= next) (clash?.or clash?') := by
  cases clash? with
  | none =>
    obtain ⟨result, rfl⟩ := h
    exact hnext result rfl
  | some path =>
    rw [show m = .error ⟨path⟩ from h]
    exact rfl

theorem map {m : Merging α} {clash? : Option (List String)} (h : FailsAt m clash?) (f : α → β) :
    FailsAt (f <$> m) clash? := by
  cases clash? with
  | none =>
    obtain ⟨result, rfl⟩ := h
    exact ok (f result)
  | some path =>
    rw [show m = .error ⟨path⟩ from h]
    exact rfl

theorem within {m : Merging α} {clash? : Option (List String)} (h : FailsAt m clash?)
    (segment : String) : FailsAt (Merging.within segment m) (clash?.map (segment :: ·)) := by
  cases clash? with
  | none =>
    obtain ⟨result, rfl⟩ := h
    exact ok result
  | some path =>
    rw [show m = .error ⟨path⟩ from h]
    exact rfl

/-- A merge ends well exactly if there is nothing that it fails at. -/
theorem exists_ok_iff {m : Merging α} {clash? : Option (List String)} (h : FailsAt m clash?) :
    (∃ result, m = .ok result) ↔ clash? = none := by
  cases clash? with
  | none => exact iff_of_true h rfl
  | some path => rw [show m = .error ⟨path⟩ from h]; simp

theorem of_error {m : Merging α} {clash? : Option (List String)} (h : FailsAt m clash?)
    {c : Conflict} (hm : m = .error c) : clash? = some c.path := by
  subst hm
  cases clash? with
  | none => obtain ⟨_, h⟩ := h; cases h
  | some path => cases h; rfl

end FailsAt

/-- The first name of an addition that the base has. -/
def firstShared? (base addition : List String) : Option String := addition.find? (· ∈ base)

theorem firstShared?_cons (base addition : List String) (name : String) :
    firstShared? base (name :: addition) =
      (if name ∈ base then some name else none).or (firstShared? base addition) := by
  rw [firstShared?, List.find?_cons]
  by_cases h : name ∈ base <;> simp [h, firstShared?]

/-- Names that an addition does not have may come to the base. -/
theorem firstShared?_congr {base base' addition : List String}
    (h : ∀ name ∈ addition, name ∈ base' ↔ name ∈ base) :
    firstShared? base' addition = firstShared? base addition :=
  List.find?_congr fun name hname => by simp [h name hname]

theorem firstShared?_eq_none_iff {base addition : List String} :
    firstShared? base addition = none ↔ base.Disjoint addition := by
  rw [firstShared?, List.find?_eq_none, List.disjoint_right]
  simp

/-! ## Collections -/

/-- The names of a collection that may be left out. -/
def keysOf (c : Option (Keyed α)) : List String :=
  match c with
  | none => []
  | some m => m.keys

namespace Keyed

theorem mem_keys_iff {m : Keyed α} {key : String} : key ∈ m.keys ↔ (m.get? key).isSome = true := by
  rw [keys, Option.isSome_iff_exists]
  simp only [get?_eq_some_iff_mem, List.mem_map, Prod.exists, exists_and_right, exists_eq_right]

theorem keys_ascending (m : Keyed α) : m.keys.Pairwise (· < ·) := by
  rw [keys, List.pairwise_map]
  exact m.ascending

end Keyed

theorem mem_keysOf {c : Option (Keyed α)} {key : String} :
    key ∈ keysOf c ↔ (lookup? c key).isSome = true := by
  cases c with
  | none => simp [keysOf]
  | some m => exact Keyed.mem_keys_iff

/-- A join that fails at every shared key fails at the first. The induction is on the entries of the
addition; since their keys ascend, what one brings to the base does not stand in the way of the
next. -/
theorem joinM_failsAt {join : String → α → α → Merging α} {base addition : Keyed α}
    (hjoin : ∀ key ∈ addition.keys, key ∈ base.keys →
      ∀ old value, join key old value = .error ⟨[key]⟩) :
    FailsAt (Keyed.joinM join base addition)
      ((firstShared? base.keys addition.keys).map ([·])) := by
  obtain ⟨l, hl⟩ := addition
  have hkeys : (Keyed.mk l hl).keys = l.map (·.1) := rfl
  rw [hkeys] at hjoin
  rw [Keyed.joinM, hkeys]
  clear hkeys
  induction l generalizing base with
  | nil => exact .ok base
  | cons e rest ih =>
    obtain ⟨key, value⟩ := e
    obtain ⟨hhead, htail⟩ := List.pairwise_cons.1 hl
    have hrest : ∀ name ∈ rest.map (·.1),
        name ∈ (base.insert key value).keys ↔ name ∈ base.keys := by
      intro name hname
      obtain ⟨e, he, rfl⟩ := List.mem_map.1 hname
      have hne : key ≠ e.1 := fun heq => String.lt_irrefl key (heq ▸ hhead e he)
      rw [Keyed.mem_keys_iff, Keyed.mem_keys_iff, Keyed.get?_insert, if_neg hne]
    have hnext := @ih (base.insert key value) htail fun name hname hmem =>
      hjoin name (List.mem_cons_of_mem _ hname) ((hrest name hname).1 hmem)
    rw [firstShared?_congr hrest] at hnext
    rw [List.foldlM_cons, List.map_cons, firstShared?_cons]
    by_cases hmem : key ∈ base.keys
    · obtain ⟨old, hold⟩ := Option.isSome_iff_exists.1 (Keyed.mem_keys_iff.1 hmem)
      rw [if_pos hmem, hold]
      simp only [hjoin key (List.mem_cons_self ..) hmem]
      exact rfl
    · have hold : base.get? key = none := by simpa [Keyed.mem_keys_iff] using hmem
      rw [if_neg hmem, hold]
      exact hnext

section Collections

variable {join : α → α → Merging α}

theorem collection_failsAt {field entries : String} (base addition : Option (Keyed α)) :
    FailsAt (collection .reject field entries join base addition)
      ((firstShared? (keysOf base) (keysOf addition)).map ([field, entries, ·])) := by
  cases base with
  | none =>
    rw [collection, optional_none_left, within_ok, firstShared?_eq_none_iff.2 (by simp [keysOf])]
    exact .ok addition
  | some b =>
    cases addition with
    | none => exact .ok (some b)
    | some a =>
      have hkeyed : FailsAt (keyed .reject join b a) ((firstShared? b.keys a.keys).map ([·])) :=
        joinM_failsAt fun _ _ _ _ _ => rfl
      have h := ((hkeyed.within entries).map some).within field
      rw [Option.map_map, Option.map_map] at h
      exact h

/-- Two collections side by side, with every entry as it is. -/
structure UnionByKey (base addition result : Option (Keyed α)) : Prop where
  isSome : result.isSome = (base.isSome || addition.isSome)
  lookup? : ∀ name, lookup? result name = (lookup? base name).or (lookup? addition name)

theorem unionByKey_of_collection {field entries : String} {base addition result : Option (Keyed α)}
    (h : collection .reject field entries join base addition = .ok result) :
    UnionByKey base addition result where
  isSome := by
    rw [collection, within_eq_ok_iff] at h
    exact (optional_eq_ok_iff.1 h).isSome_eq
  lookup? name := by
    have hjoined := lookup?_collection h name
    generalize IdlDecls.lookup? base name = b, IdlDecls.lookup? addition name = a,
      IdlDecls.lookup? result name = r at hjoined ⊢
    cases hjoined with
    | base => exact (Option.or_none ..).symm
    | addition => rfl
    | both hshared => exact absurd rfl (shared_eq_ok_iff.1 hshared).1

/-- A union of collections without a shared name is the same from both sides. -/
theorem UnionByKey.unique_of_disjoint {base addition result result' : Option (Keyed α)}
    (hdisjoint : (keysOf base).Disjoint (keysOf addition)) (h : UnionByKey base addition result)
    (h' : UnionByKey addition base result') : result = result' := by
  have hlookup : ∀ name, IdlDecls.lookup? result name = IdlDecls.lookup? result' name := by
    intro name
    rw [h.lookup?, h'.lookup?]
    cases hb : IdlDecls.lookup? base name with
    | none => simp
    | some old =>
      cases ha : IdlDecls.lookup? addition name with
      | none => rfl
      | some value =>
        exact absurd (mem_keysOf.2 (by rw [ha]; rfl)) (hdisjoint (mem_keysOf.2 (by rw [hb]; rfl)))
  exact eq_of_lookup? (by rw [h.isSome, h'.isSome, Bool.or_comm]) hlookup

end Collections

/-! ## Lists -/

section Lists

variable {identity : α → String} {join : α → α → Merging α}

/-- The identities of some items; an item without one has none here. -/
def identitiesOf (identity : α → String) (l : List α) : List String :=
  (l.map identity).filter (· ≠ "")

theorem mem_identitiesOf {l : List α} {name : String} :
    name ∈ identitiesOf identity l ↔ name ≠ "" ∧ ∃ item ∈ l, identity item = name := by
  simp [identitiesOf, and_comm]

theorem identifiedItem_failsAt (item : α) : ∀ base : List α,
    FailsAt (identifiedItem .reject identity join base item)
      (if identity item ∈ identitiesOf identity base then some [identity item] else none)
  | [] => .ok [item]
  | old :: rest => by
    rw [identifiedItem_cons]
    by_cases hsame : SameIdentity identity old item
    · rw [if_pos hsame, if_pos (mem_identitiesOf.2 ⟨hsame.1, old, by simp, hsame.2⟩)]
      exact rfl
    · have hmem : identity item ∈ identitiesOf identity (old :: rest) ↔
          identity item ∈ identitiesOf identity rest := by
        simp only [mem_identitiesOf, List.mem_cons, exists_eq_or_imp]
        exact and_congr_right fun hne => or_iff_right fun heq => hsame ⟨hne, heq⟩
      rw [if_neg hsame, if_congr hmem rfl rfl]
      exact (identifiedItem_failsAt item rest).map _

/-- Under a strict policy an item comes to the end or fails. -/
theorem eq_append_of_identifiedItem {base next : List α} {item : α}
    (h : identifiedItem .reject identity join base item = .ok next) : next = base ++ [item] := by
  rcases identifiedItem_cases h with ⟨-, rfl⟩ | ⟨_, _, _, _, -, -, -, hlevel, -⟩
  · rfl
  · exact absurd rfl hlevel

theorem eq_append_of_identified : ∀ {addition base result : List α},
    identified .reject identity join base addition = .ok result → result = base ++ addition
  | [], base, _, h => by
    rw [← foldlM_nil_eq_ok_iff.1 h, List.append_nil]
  | item :: rest, base, _, h => by
    obtain ⟨next, hnext, hrest⟩ := foldlM_cons_eq_ok_iff.1 h
    rw [eq_append_of_identified hrest, eq_append_of_identifiedItem hnext, List.append_assoc]
    rfl

/-- A shared identity is a conflict. Items that have come to the base share no identity with later
ones, for no identity of the addition repeats. -/
theorem identified_failsAt : ∀ {addition : List α} (base : List α),
    IdentitiesDistinct identity addition →
    FailsAt (identified .reject identity join base addition)
      ((firstShared? (identitiesOf identity base) (identitiesOf identity addition)).map ([·]))
  | [], base, _ => .ok base
  | item :: rest, base, h => by
    obtain ⟨hhead, htail⟩ := List.pairwise_cons.1 h
    have hrest : ∀ name ∈ identitiesOf identity rest,
        name ∈ identitiesOf identity (base ++ [item]) ↔ name ∈ identitiesOf identity base := by
      intro name hname
      obtain ⟨hne, later, hlater, rfl⟩ := mem_identitiesOf.1 hname
      have hfresh : identity item ≠ identity later :=
        fun heq => hne (heq ▸ hhead later hlater heq)
      simp [mem_identitiesOf, hfresh]
    have hfirst : firstShared? (identitiesOf identity base) (identitiesOf identity (item :: rest)) =
        (if identity item ∈ identitiesOf identity base then some (identity item) else none).or
          (firstShared? (identitiesOf identity base) (identitiesOf identity rest)) := by
      by_cases hempty : identity item = ""
      · have hskip : identitiesOf identity (item :: rest) = identitiesOf identity rest := by
          simp [identitiesOf, hempty]
        rw [hskip, if_neg fun hmem => (mem_identitiesOf.1 hmem).1 hempty, Option.none_or]
      · rw [← firstShared?_cons]
        simp [identitiesOf, hempty]
    have hitem : FailsAt (identifiedItem .reject identity join base item) _ :=
      identifiedItem_failsAt item base
    rw [hfirst, Option.map_or]
    refine FailsAt.bind ?_ fun next hnext => ?_
    · split <;> simp_all
    · rw [eq_append_of_identifiedItem hnext, ← firstShared?_congr hrest]
      exact identified_failsAt (base ++ [item]) htail

end Lists

/-! ## Graphs -/

/-- A kind of definitions. Each has a collection of its own in a graph. -/
inductive DefinitionKind where
  | callbackFunctions
  | callbackInterfaces
  | dictionaries
  | enums
  | interfaces
  | mixins
  | typedefs
  | namespaces
deriving DecidableEq, Repr

namespace DefinitionKind

/-- The kinds in the order in which a merge comes to them. -/
def inOrder : List DefinitionKind :=
  [callbackFunctions, callbackInterfaces, dictionaries, enums, interfaces, mixins, typedefs,
    namespaces]

/-- The fields that lead to the definitions of a kind. -/
def path : DefinitionKind → List String
  | callbackFunctions => ["callback-functions", "callback-function"]
  | callbackInterfaces => ["callback-interfaces", "interface"]
  | dictionaries => ["dictionaries", "dictionary"]
  | enums => ["enums", "enum"]
  | interfaces => ["interfaces", "interface"]
  | mixins => ["mixins", "mixin"]
  | typedefs => ["typedefs", "typedef"]
  | namespaces => ["namespaces"]

/-- Whether the definitions of a kind stand under keys. -/
def isKeyed : DefinitionKind → Bool
  | typedefs | namespaces => false
  | _ => true

end DefinitionKind

namespace Graph

/-- What the definitions of a kind are told apart by, in their order. -/
def identities (g : Graph) : DefinitionKind → List String
  | .callbackFunctions => keysOf g.callbackFunctions
  | .callbackInterfaces => keysOf g.callbackInterfaces
  | .dictionaries => keysOf g.dictionaries
  | .enums => keysOf g.enums
  | .interfaces => keysOf g.interfaces
  | .mixins => keysOf g.mixins
  | .typedefs => identitiesOf Typedef.name (g.typedefs.getD [])
  | .namespaces => identitiesOf Interface.name (g.namespaces.getD [])

/-- The first definition of a kind that an addition shares with a base. -/
def clashIn? (base addition : Graph) (kind : DefinitionKind) : Option (List String) :=
  (firstShared? (base.identities kind) (addition.identities kind)).map (kind.path ++ [·])

/-- The first definition that an addition shares with a base. -/
def firstClash? (base addition : Graph) : Option (List String) :=
  DefinitionKind.inOrder.findSome? (base.clashIn? addition)

theorem keys_ascending {g : Graph} {kind : DefinitionKind} (h : kind.isKeyed = true) :
    (g.identities kind).Pairwise (· < ·) := by
  have hkeys : ∀ {α : Type} (c : Option (Keyed α)), (keysOf c).Pairwise (· < ·) := by
    intro α c
    cases c with
    | none => exact .nil
    | some m => exact m.keys_ascending
  cases kind with
  | typedefs | namespaces => cases h
  | _ => exact hkeys _

/-- Extra fields without a shared name are joined. -/
theorem extras_failsAt {base addition : Extra} (h : base.keys.Disjoint addition.keys) :
    FailsAt (extras .reject base addition) none := by
  have hjoin : FailsAt (extras .reject base addition) _ :=
    joinM_failsAt fun _ hkey hmem => absurd hkey (h hmem)
  rwa [firstShared?_eq_none_iff.2 h] at hjoin

theorem typedefs_failsAt {base addition : Graph} (h : addition.IdentitiesDistinct) :
    FailsAt (within "typedefs" (Merge.optional
        (fun old value => within "typedef" (mergeTypedefs .reject old value)) base.typedefs
        addition.typedefs)) (base.clashIn? addition .typedefs) := by
  have hdistinct := h.typedefs
  rw [clashIn?, identities, identities]
  cases base.typedefs with
  | none =>
    rw [optional_none_left, within_ok, firstShared?_eq_none_iff.2 (by simp [identitiesOf])]
    exact .ok _
  | some b =>
    cases haddition : addition.typedefs with
    | none => exact .ok _
    | some a =>
      rw [haddition] at hdistinct
      have hlists : FailsAt (mergeTypedefs .reject b a) _ := identified_failsAt b hdistinct
      have hwithin := ((hlists.within "typedef").map some).within "typedefs"
      rw [Option.map_map, Option.map_map] at hwithin
      exact hwithin

theorem namespaces_failsAt {base addition : Graph} (h : addition.IdentitiesDistinct) :
    FailsAt (within "namespaces"
      (mergeNamespaceLists .strict base.namespaces addition.namespaces))
      (base.clashIn? addition .namespaces) := by
  have hdistinct := h.namespaces
  rw [clashIn?, identities, identities]
  cases haddition : addition.namespaces with
  | none => exact .ok _
  | some a =>
    rw [haddition] at hdistinct
    have hlists : FailsAt (mergeNamespaces .strict (base.namespaces.getD []) a) _ :=
      identified_failsAt _ hdistinct
    have hwithin := (hlists.map some).within "namespaces"
    rw [Option.map_map] at hwithin
    exact hwithin

/-- **A strict merge fails at the first definition that both sides share**, if there is one. -/
theorem merge_failsAt {base addition : Graph} (ha : addition.IdentitiesDistinct)
    (hextra : base.extra.keys.Disjoint addition.extra.keys) :
    FailsAt (base.merge .strict addition) (base.firstClash? addition) := by
  have hcons : ∀ (kind : DefinitionKind) rest, (kind :: rest).findSome? (base.clashIn? addition) =
      (base.clashIn? addition kind).or (rest.findSome? (base.clashIn? addition)) := by
    intro kind rest
    rw [List.findSome?_cons]
    cases base.clashIn? addition kind <;> rfl
  simp only [firstClash?, DefinitionKind.inOrder, hcons, List.findSome?_nil]
  have hextras {f : Extra → Graph} :
      FailsAt (f <$> extras .reject base.extra addition.extra) none :=
    (extras_failsAt hextra).map f
  have hnamespaces : FailsAt _ (base.clashIn? addition .namespaces) := namespaces_failsAt ha
  refine .bind (collection_failsAt ..) fun _ _ => .bind (collection_failsAt ..) fun _ _ =>
    .bind (collection_failsAt ..) fun _ _ => .bind (collection_failsAt ..) fun _ _ =>
    .bind (collection_failsAt ..) fun _ _ => .bind (collection_failsAt ..) fun _ _ =>
    .bind (typedefs_failsAt ha) fun _ _ => ?_
  cases hitems : addition.namespaces with
  | none =>
    rw [hitems] at hnamespaces
    exact hnamespaces.bind fun _ _ => hextras
  | some items =>
    rw [hitems] at hnamespaces
    exact hnamespaces.bind fun _ _ => hextras

/-- The definition at which a strict merge fails: the first kind with a shared definition, and in it
the first definition of the addition that the base has. Under keys that is the smallest one. -/
structure FirstClash (base addition : Graph) (kind : DefinitionKind) (name : String) : Prop where
  kinds : ∃ earlier later, DefinitionKind.inOrder = earlier ++ kind :: later ∧
    ∀ other ∈ earlier, (base.identities other).Disjoint (addition.identities other)
  shared : name ∈ base.identities kind
  names : ∃ earlier later, addition.identities kind = earlier ++ name :: later ∧
    (base.identities kind).Disjoint earlier
  smallest : kind.isKeyed = true →
    ∀ other ∈ base.identities kind, other ∈ addition.identities kind → name ≤ other

theorem clashIn?_eq_none_iff {base addition : Graph} {kind : DefinitionKind} :
    base.clashIn? addition kind = none ↔
      (base.identities kind).Disjoint (addition.identities kind) := by
  rw [clashIn?, Option.map_eq_none_iff, firstShared?_eq_none_iff]

theorem firstClash?_eq_none_iff {base addition : Graph} :
    base.firstClash? addition = none ↔
      ∀ kind, (base.identities kind).Disjoint (addition.identities kind) := by
  have hall : ∀ kind, kind ∈ DefinitionKind.inOrder := by
    intro kind; cases kind <;> decide
  rw [firstClash?, List.findSome?_eq_none_iff]
  exact ⟨fun h kind => clashIn?_eq_none_iff.1 (h kind (hall kind)),
    fun h kind _ => clashIn?_eq_none_iff.2 (h kind)⟩

theorem firstClash_of_some {base addition : Graph} {path : List String}
    (h : base.firstClash? addition = some path) :
    ∃ kind name, FirstClash base addition kind name ∧ path = kind.path ++ [name] := by
  obtain ⟨earlier, kind, later, horder, hclash, hearlier⟩ := List.findSome?_eq_some_iff.1 h
  obtain ⟨name, hfirst, rfl⟩ := Option.map_eq_some_iff.1 hclash
  obtain ⟨hshared, before, after, hsplit, hbefore⟩ := List.find?_eq_some_iff_append.1 hfirst
  have hname : name ∈ base.identities kind := by simpa using hshared
  have hfresh : (base.identities kind).Disjoint before :=
    List.disjoint_right.2 fun other hother => by simpa using hbefore other hother
  refine ⟨kind, name, ⟨?_, hname, ⟨before, after, hsplit, hfresh⟩, ?_⟩, rfl⟩
  · exact ⟨earlier, later, horder, fun other hother =>
      clashIn?_eq_none_iff.1 (hearlier other hother)⟩
  · intro hkeyed other hbase haddition
    have hascending := keys_ascending (g := addition) hkeyed
    rw [hsplit] at hascending haddition
    rcases List.mem_append.1 haddition with hother | hother
    · exact absurd hother (hfresh hbase)
    · rcases List.mem_cons.1 hother with rfl | hother
      · exact String.le_refl _
      · have hlt := List.rel_of_pairwise_cons (List.pairwise_append.1 hascending).2.1 hother
        exact String.not_lt.1 (String.lt_asymm hlt)

/-- Two graphs side by side: every definition and every extra field of either as it is. -/
structure DisjointUnion (base addition result : Graph) : Prop where
  callbackFunctions :
    UnionByKey base.callbackFunctions addition.callbackFunctions result.callbackFunctions
  callbackInterfaces :
    UnionByKey base.callbackInterfaces addition.callbackInterfaces result.callbackInterfaces
  dictionaries : UnionByKey base.dictionaries addition.dictionaries result.dictionaries
  enums : UnionByKey base.enums addition.enums result.enums
  interfaces : UnionByKey base.interfaces addition.interfaces result.interfaces
  mixins : UnionByKey base.mixins addition.mixins result.mixins
  typedefs : Joined (fun old new merged => merged = old ++ new) base.typedefs addition.typedefs
    result.typedefs
  namespaces : Joined (fun old new merged => merged = old ++ new) base.namespaces
    addition.namespaces result.namespaces
  extra : ∀ key, result.extra.get? key = (base.extra.get? key).or (addition.extra.get? key)

theorem disjointUnion_of_merge {base addition result : Graph}
    (hextra : base.extra.keys.Disjoint addition.extra.keys)
    (h : base.merge .strict addition = .ok result) : DisjointUnion base addition result := by
  have hmerged := Graph.merge_eq_ok_iff.1 h
  refine ⟨unionByKey_of_collection hmerged.callbackFunctions,
    unionByKey_of_collection hmerged.callbackInterfaces,
    unionByKey_of_collection hmerged.dictionaries, unionByKey_of_collection hmerged.enums,
    unionByKey_of_collection hmerged.interfaces, unionByKey_of_collection hmerged.mixins,
    ?typedefs, ?namespaces, ?extra⟩
  case typedefs =>
    exact (optional_eq_ok_iff.1 hmerged.typedefs).mono fun _ _ _ hlists =>
      eq_append_of_identified (within_eq_ok_iff.1 hlists)
  case namespaces =>
    have hnamespaces := hmerged.namespaces
    generalize base.namespaces = old, addition.namespaces = new, result.namespaces = merged
      at hnamespaces ⊢
    cases new with
    | none => cases hnamespaces; exact .base _
    | some items =>
      obtain ⟨merged, hlists, rfl⟩ := map_eq_ok_iff.1 hnamespaces
      rw [eq_append_of_identified hlists]
      cases old with
      | none => exact .addition _
      | some old => exact .both rfl
  case extra =>
    intro key
    have hjoined := Keyed.get?_joinM hmerged.extra key
    cases hb : base.extra.get? key with
    | none =>
      rw [hb, Joined.none_left_iff] at hjoined
      exact hjoined
    | some old =>
      have hnone : addition.extra.get? key = none := by
        rw [← Option.not_isSome_iff_eq_none, ← Keyed.mem_keys_iff]
        exact hextra (Keyed.mem_keys_iff.2 (by rw [hb]; rfl))
      rw [hb, hnone, Joined.none_right_iff] at hjoined
      exact hjoined

/-- The same graph, but for the order of the type definitions and of the namespaces. -/
structure SameUpToOrder (g h : Graph) : Prop where
  others : { g with typedefs := h.typedefs, namespaces := h.namespaces } = h
  typedefs : Option.Rel List.Perm g.typedefs h.typedefs
  namespaces : Option.Rel List.Perm g.namespaces h.namespaces

/-- Lists that are joined in either order hold the same items. -/
theorem perm_of_joined {base addition result result' : Option (List α)}
    (h : Joined (fun old new merged => merged = old ++ new) base addition result)
    (h' : Joined (fun old new merged => merged = old ++ new) addition base result') :
    Option.Rel List.Perm result result' := by
  have hrefl : ∀ l : Option (List α), Option.Rel List.Perm l l
    | none => .none
    | some l => .some (.refl l)
  cases h with
  | base b => rw [Joined.none_left_iff.1 h']; exact hrefl _
  | addition a => rw [Joined.none_right_iff.1 h']; exact hrefl _
  | both h =>
    obtain ⟨merged, rfl, rfl⟩ := Joined.some_some_iff.1 h'
    subst h
    exact .some List.perm_append_comm

/-- Graphs that share nothing have one union, from either side. -/
theorem DisjointUnion.sameUpToOrder {base addition result result' : Graph}
    (hdisjoint : ∀ kind, (base.identities kind).Disjoint (addition.identities kind))
    (hextra : base.extra.keys.Disjoint addition.extra.keys) (h : DisjointUnion base addition result)
    (h' : DisjointUnion addition base result') : SameUpToOrder result result' where
  others := by
    have hextras : result.extra = result'.extra := by
      refine Keyed.ext_get? fun key => ?_
      rw [h.extra, h'.extra]
      cases hb : base.extra.get? key with
      | none => rw [Option.none_or, Option.or_none]
      | some old =>
        cases ha : addition.extra.get? key with
        | none => rfl
        | some value =>
          exact absurd (Keyed.mem_keys_iff.2 (by rw [ha]; rfl))
            (hextra (Keyed.mem_keys_iff.2 (by rw [hb]; rfl)))
    rw [h.callbackFunctions.unique_of_disjoint (hdisjoint .callbackFunctions) h'.callbackFunctions,
      h.callbackInterfaces.unique_of_disjoint (hdisjoint .callbackInterfaces)
        h'.callbackInterfaces,
      h.dictionaries.unique_of_disjoint (hdisjoint .dictionaries) h'.dictionaries,
      h.enums.unique_of_disjoint (hdisjoint .enums) h'.enums,
      h.interfaces.unique_of_disjoint (hdisjoint .interfaces) h'.interfaces,
      h.mixins.unique_of_disjoint (hdisjoint .mixins) h'.mixins, hextras]
  typedefs := perm_of_joined h.typedefs h'.typedefs
  namespaces := perm_of_joined h.namespaces h'.namespaces

/-- **A strict merge is a disjoint union.** It ends well exactly if the two graphs share no
definition, and then leaves both side by side, in either order. Otherwise it fails at the first
shared definition. -/
theorem merge_strict {a b : Graph} (ha : a.IdentitiesDistinct) (hb : b.IdentitiesDistinct)
    (hextra : a.extra.keys.Disjoint b.extra.keys) :
    ((∃ result, a.merge .strict b = .ok result) ↔
      ∀ kind, (a.identities kind).Disjoint (b.identities kind)) ∧
    (∀ result, a.merge .strict b = .ok result → DisjointUnion a b result ∧
      ∃ result', b.merge .strict a = .ok result' ∧ SameUpToOrder result result') ∧
    ∀ c, a.merge .strict b = .error c →
      ∃ kind name, FirstClash a b kind name ∧ c.path = kind.path ++ [name] := by
  have hab : FailsAt (a.merge .strict b) _ := merge_failsAt hb hextra
  have hba : FailsAt (b.merge .strict a) _ := merge_failsAt ha (List.disjoint_comm.1 hextra)
  refine ⟨hab.exists_ok_iff.trans firstClash?_eq_none_iff, fun result h => ?_, fun c h => ?_⟩
  · have hdisjoint := firstClash?_eq_none_iff.1 (hab.exists_ok_iff.1 ⟨result, h⟩)
    obtain ⟨result', h'⟩ := hba.exists_ok_iff.2
      (firstClash?_eq_none_iff.2 fun kind => List.disjoint_comm.1 (hdisjoint kind))
    have hunion := disjointUnion_of_merge hextra h
    have hunion' := disjointUnion_of_merge (List.disjoint_comm.1 hextra) h'
    exact ⟨hunion, result', h', hunion.sameUpToOrder hdisjoint hextra hunion'⟩
  · exact firstClash_of_some (hab.of_error h)

/-- A graph with an interface, an enumeration and a namespace, none of them in `meterGraph`. -/
def gaugeGraph : Graph where
  interfaces := some (.ofList [("Gauge", { name := "Gauge" })])
  enums := some (.ofList [("Scale", { name := "Scale", values := ["linear"] })])
  namespaces := some [{ name := "Scales" }]

theorem meterGraph_merge_strict :
    (∃ result, meterGraph.merge .strict gaugeGraph = .ok result ∧
      DisjointUnion meterGraph gaugeGraph result ∧
      ∃ result', gaugeGraph.merge .strict meterGraph = .ok result' ∧
        SameUpToOrder result result') ∧
    ∃ kind name, FirstClash meterGraph meterChanges kind name ∧
      meterGraph.merge .strict meterChanges = .error ⟨kind.path ++ [name]⟩ := by
  have hmeter : meterGraph.IdentitiesDistinct := by decide +kernel
  have hgauge : gaugeGraph.IdentitiesDistinct := by decide +kernel
  have hchanges : meterChanges.IdentitiesDistinct := by decide +kernel
  have hextra : (∅ : Extra).keys.Disjoint (∅ : Extra).keys := List.disjoint_nil_left _
  obtain ⟨hok, hunion, -⟩ := merge_strict hmeter hgauge hextra
  obtain ⟨result, h⟩ := hok.2 (firstClash?_eq_none_iff.1 (by decide +kernel))
  obtain ⟨-, -, herror⟩ := merge_strict hmeter hchanges hextra
  have hclash : meterGraph.merge .strict meterChanges =
      .error ⟨["interfaces", "interface", "Meter"]⟩ := by decide +kernel
  obtain ⟨kind, name, hfirst, hpath⟩ := herror _ hclash
  exact ⟨⟨result, h, hunion result h⟩, kind, name, hfirst, by rw [hclash, ← hpath]⟩

end Graph

end IdlDecls
