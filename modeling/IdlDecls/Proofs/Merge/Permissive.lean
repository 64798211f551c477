import IdlDecls.Proofs.Merge.Fields

/-!
# More permissive policies

A policy decides whether a merge ends well, but not in what: a merge that one policy lets through ends
the same under every policy that is at least as permissive (`Mergeable.merge_of_le`). Each kind of
field asks the policy in a place of its own, and has a lemma of its own for that; the types follow by
the lists of their fields.
-/

namespace IdlDecls

open Merge Merging

variable {α : Type}

/-! ## Policies -/

theorem Policy.ne_reject_of_le {p q : Policy} (hpq : p ≤ q) (hp : p ≠ .reject) : q ≠ .reject := by
  rintro rfl
  cases p with
  | reject => exact hp rfl
  | extend | override => exact absurd hpq (by decide)

theorem Policy.eq_override_of_le {q : Policy} (h : .override ≤ q) : q = .override := by
  cases q with
  | reject | extend => exact absurd h (by decide)
  | override => rfl

/-! ## Fields -/

section Fields

variable {p q : Policy}

/-- A value that stays does so under every policy, and one that changes needs the most permissive. -/
theorem settleBy_mono {β : Type} [DecidableEq β] {look : α → β} {old new merged : α} (hpq : p ≤ q)
    (h : settleBy look p old new = .ok merged) : settleBy look q old new = .ok merged := by
  unfold settleBy at h ⊢
  by_cases hlook : look new = look old
  · rw [if_pos hlook] at h ⊢
    exact h
  · rw [if_neg hlook] at h ⊢
    cases p with
    | reject | extend => cases h
    | override => rw [Policy.eq_override_of_le hpq]; exact h

theorem optional_mono {join join' : α → α → Merging α}
    (hjoin : ∀ old new merged, join old new = .ok merged → join' old new = .ok merged)
    {base addition result : Option α} (h : Merge.optional join base addition = .ok result) :
    Merge.optional join' base addition = .ok result :=
  optional_eq_ok_iff.2 ((optional_eq_ok_iff.1 h).mono hjoin)

theorem scalar_mono [DecidableEq α] (hpq : p ≤ q) {base addition result : Option α}
    (h : scalar p base addition = .ok result) : scalar q base addition = .ok result :=
  optional_mono (fun _ _ _ => settleBy_mono hpq) h

theorem literal_mono (hpq : p ≤ q) {base addition result : Option Json}
    (h : literal p base addition = .ok result) : literal q base addition = .ok result :=
  optional_mono (fun _ _ _ => settleBy_mono hpq) h

theorem grown_mono [DecidableEq α] {union : α → α → α} (hpq : p ≤ q)
    {base addition result : Option α} (h : grown p union base addition = .ok result) :
    grown q union base addition = .ok result :=
  optional_mono (fun _ _ _ => settleBy_mono hpq) h

theorem exposure_mono (hpq : p ≤ q) {base addition result : Option Exposure}
    (h : exposure p base addition = .ok result) : exposure q base addition = .ok result := by
  rw [exposure] at h ⊢
  cases hvalue : Exposure.nonempty? addition with
  | none => rw [hvalue] at h; exact h
  | some value => rw [hvalue] at h; exact grown_mono hpq h

/-! ## JSON -/

mutual

theorem json_mono (hpq : p ≤ q) : ∀ {base addition result : Json},
    json p base addition = .ok result → json q base addition = .ok result
  | .obj base, .obj addition, _, h => by
    rw [json] at h ⊢
    obtain ⟨fields, hfields, rfl⟩ := map_eq_ok_iff.1 h
    exact map_eq_ok_iff.2 ⟨fields, jsonFields_mono hpq hfields, rfl⟩
  | .arr _, .arr _, _, h => by
    rw [json] at h ⊢
    exact h
  | .null, b, _, h | .bool _, b, _, h | .num _, b, _, h | .str _, b, _, h => by
    cases b <;> (simp only [json] at h ⊢; exact settleBy_mono hpq h)
  | .obj _, .null, _, h | .obj _, .bool _, _, h | .obj _, .num _, _, h | .obj _, .str _, _, h
  | .obj _, .arr _, _, h => by
    simp only [json] at h ⊢
    exact settleBy_mono hpq h
  | .arr _, .null, _, h | .arr _, .bool _, _, h | .arr _, .num _, _, h | .arr _, .str _, _, h
  | .arr _, .obj _, _, h => by
    simp only [json] at h ⊢
    exact settleBy_mono hpq h

theorem jsonFields_mono (hpq : p ≤ q) : ∀ {base addition result : List (String × Json)},
    jsonFields p base addition = .ok result → jsonFields q base addition = .ok result
  | _, [], _, h => by
    rw [jsonFields] at h ⊢
    exact h
  | base, (key, value) :: rest, _, h => by
    obtain ⟨merged, hmerged, hrest⟩ := jsonFields_cons_eq_ok_iff.1 h
    refine jsonFields_cons_eq_ok_iff.2 ⟨merged, ?_, jsonFields_mono hpq hrest⟩
    cases hold : Entries.get? base key with
    | none => simpa [hold] using hmerged
    | some old =>
      rw [hold, Joined.some_some_iff] at hmerged
      obtain ⟨m, hm, hjson⟩ := hmerged
      exact hm ▸ .both (json_mono hpq hjson)

end

theorem extras_mono (hpq : p ≤ q) {base addition result : Extra}
    (h : extras p base addition = .ok result) : extras q base addition = .ok result :=
  Keyed.joinM_mono (fun _ _ _ _ hm => within_eq_ok_iff.2 (json_mono hpq (within_eq_ok_iff.1 hm))) h

/-! ## Collections -/

section Collections

variable {join join' : α → α → Merging α}
  (hjoin : ∀ old new merged, join old new = .ok merged → join' old new = .ok merged)
include hjoin

theorem shared_mono (hpq : p ≤ q) {name : String} {old new merged : α}
    (h : shared p name join old new = .ok merged) : shared q name join' old new = .ok merged := by
  obtain ⟨hp, hm⟩ := shared_eq_ok_iff.1 h
  exact shared_eq_ok_iff.2 ⟨Policy.ne_reject_of_le hpq hp, hjoin old new merged hm⟩

theorem keyed_mono (hpq : p ≤ q) {base addition result : Keyed α}
    (h : keyed p join base addition = .ok result) : keyed q join' base addition = .ok result :=
  Keyed.joinM_mono (fun _ _ _ _ => shared_mono hjoin hpq) h

theorem collection_mono (hpq : p ≤ q) {field entries : String} {base addition result : Option (Keyed α)}
    (h : collection p field entries join base addition = .ok result) :
    collection q field entries join' base addition = .ok result := by
  rw [collection, within_eq_ok_iff] at h ⊢
  refine optional_mono (fun old new merged hm => ?_) h
  rw [within_eq_ok_iff] at hm ⊢
  exact keyed_mono hjoin hpq hm

theorem identifiedItem_mono (hpq : p ≤ q) {identity : α → String} : ∀ {base next : List α} {item : α},
    identifiedItem p identity join base item = .ok next →
      identifiedItem q identity join' base item = .ok next
  | [], _, _, h => h
  | old :: rest, next, item, h => by
    rw [identifiedItem_cons] at h ⊢
    by_cases hsame : SameIdentity identity old item
    · rw [if_pos hsame] at h ⊢
      obtain ⟨new, hnew, rfl⟩ := map_eq_ok_iff.1 h
      exact map_eq_ok_iff.2 ⟨new, shared_mono hjoin hpq hnew, rfl⟩
    · rw [if_neg hsame] at h ⊢
      obtain ⟨tail, htail, rfl⟩ := map_eq_ok_iff.1 h
      exact map_eq_ok_iff.2 ⟨tail, identifiedItem_mono hpq htail, rfl⟩

theorem identified_mono (hpq : p ≤ q) {identity : α → String} {base addition result : List α}
    (h : identified p identity join base addition = .ok result) :
    identified q identity join' base addition = .ok result :=
  foldlM_mono (fun _ _ _ => identifiedItem_mono hjoin hpq) h

end Collections

/-! ## Members -/

theorem TypeRef.merge_mono (hpq : p ≤ q) {base addition result : TypeRef}
    (h : base.merge p addition = .ok result) : base.merge q addition = .ok result := by
  have hm := TypeRef.merge_eq_ok_iff.1 h
  exact TypeRef.merge_eq_ok_iff.2
    ⟨scalar_mono hpq hm.head, scalar_mono hpq hm.arguments, scalar_mono hpq hm.nullable⟩

theorem Constant.merge_mono (hpq : p ≤ q) {base addition result : Constant}
    (h : base.merge p addition = .ok result) : base.merge q addition = .ok result := by
  have hm := Constant.merge_eq_ok_iff.1 h
  exact Constant.merge_eq_ok_iff.2
    ⟨hm.name, TypeRef.merge_mono hpq hm.type, literal_mono hpq hm.value, scalar_mono hpq hm.comment,
      exposure_mono hpq hm.exposed, extras_mono hpq hm.extra⟩

theorem Method.merge_mono (hpq : p ≤ q) {base addition result : Method}
    (h : base.merge p addition = .ok result) : base.merge q addition = .ok result := by
  have hm := Method.merge_eq_ok_iff.1 h
  exact Method.merge_eq_ok_iff.2
    ⟨hm.name, hm.signatures, scalar_mono hpq hm.isStatic, scalar_mono hpq hm.comment,
      exposure_mono hpq hm.exposed, grown_mono hpq hm.deprecated, extras_mono hpq hm.extra⟩

theorem Property.merge_mono (hpq : p ≤ q) {base addition result : Property}
    (h : base.merge p addition = .ok result) : base.merge q addition = .ok result := by
  have hm := Property.merge_eq_ok_iff.1 h
  exact Property.merge_eq_ok_iff.2
    ⟨hm.name, TypeRef.merge_mono hpq hm.type, scalar_mono hpq hm.readOnly,
      scalar_mono hpq hm.isStatic, scalar_mono hpq hm.comment, exposure_mono hpq hm.exposed,
      grown_mono hpq hm.deprecated, extras_mono hpq hm.extra⟩

theorem Constructor.merge_mono (hpq : p ≤ q) {base addition result : Constructor}
    (h : base.merge p addition = .ok result) : base.merge q addition = .ok result := by
  have hm := Constructor.merge_eq_ok_iff.1 h
  exact Constructor.merge_eq_ok_iff.2
    ⟨hm.signatures, scalar_mono hpq hm.comment, exposure_mono hpq hm.exposed,
      extras_mono hpq hm.extra⟩

theorem IteratorDecl.mergeKind_mono (hpq : p ≤ q) {base addition result : String}
    (h : mergeKind p base addition = .ok result) : mergeKind q base addition = .ok result := by
  rw [mergeKind] at h ⊢
  by_cases hb : base = ""
  · rw [if_pos hb] at h ⊢
    exact h
  · by_cases ha : addition = ""
    · rw [if_neg hb, if_pos ha] at h ⊢
      exact h
    · rw [if_neg hb, if_neg ha] at h ⊢
      exact settleBy_mono hpq h

theorem IteratorDecl.merge_mono (hpq : p ≤ q) {base addition result : IteratorDecl}
    (h : base.merge p addition = .ok result) : base.merge q addition = .ok result := by
  have hm := IteratorDecl.merge_eq_ok_iff.1 h
  exact IteratorDecl.merge_eq_ok_iff.2
    ⟨IteratorDecl.mergeKind_mono hpq hm.kind, hm.types, scalar_mono hpq hm.readOnly,
      extras_mono hpq hm.extra⟩

theorem Member.merge_mono (hpq : p ≤ q) {base addition result : Member}
    (h : base.merge p addition = .ok result) : base.merge q addition = .ok result := by
  have hm := Member.merge_eq_ok_iff.1 h
  exact Member.merge_eq_ok_iff.2
    ⟨hm.name, TypeRef.merge_mono hpq hm.type, scalar_mono hpq hm.required,
      literal_mono hpq hm.default, scalar_mono hpq hm.comment, extras_mono hpq hm.extra⟩

/-! ## Definitions -/

theorem Enumeration.merge_mono (hpq : p ≤ q) {base addition result : Enumeration}
    (h : base.merge p addition = .ok result) : base.merge q addition = .ok result := by
  have hm := Enumeration.merge_eq_ok_iff.1 h
  exact Enumeration.merge_eq_ok_iff.2
    ⟨hm.name, hm.values, scalar_mono hpq hm.comment, extras_mono hpq hm.extra⟩

theorem CallbackFunction.merge_mono (hpq : p ≤ q) {base addition result : CallbackFunction}
    (h : base.merge p addition = .ok result) : base.merge q addition = .ok result := by
  have hm := CallbackFunction.merge_eq_ok_iff.1 h
  exact CallbackFunction.merge_eq_ok_iff.2
    ⟨hm.name, hm.signatures, scalar_mono hpq hm.comment, extras_mono hpq hm.extra⟩

theorem Typedef.merge_mono (hpq : p ≤ q) {base addition result : Typedef}
    (h : base.merge p addition = .ok result) : base.merge q addition = .ok result := by
  have hm := Typedef.merge_eq_ok_iff.1 h
  exact Typedef.merge_eq_ok_iff.2
    ⟨hm.name, TypeRef.merge_mono hpq hm.type, scalar_mono hpq hm.comment, extras_mono hpq hm.extra⟩

end Fields

section Definitions

variable {p q : MergePolicy}

/-- The members of an interface fall under the second policy, and everything else under the first. -/
theorem Interface.merge_mono (hpq : p ≤ q) {base addition result : Interface}
    (h : base.merge p addition = .ok result) : base.merge q addition = .ok result := by
  obtain ⟨hentries, hmembers⟩ := hpq
  have hm := Interface.merge_eq_ok_iff.1 h
  exact Interface.merge_eq_ok_iff.2
    ⟨hm.name, scalar_mono hentries hm.parent, scalar_mono hentries hm.comment,
      collection_mono (fun _ _ _ => Constant.merge_mono hmembers) hmembers hm.constants,
      collection_mono (fun _ _ _ => Method.merge_mono hmembers) hmembers hm.methods,
      collection_mono (fun _ _ _ => Property.merge_mono hmembers) hmembers hm.properties,
      optional_mono (fun _ _ _ => Constructor.merge_mono hmembers) hm.constructor,
      optional_mono (fun _ _ _ => IteratorDecl.merge_mono hmembers) hm.iterator,
      exposure_mono hentries hm.exposed, exposure_mono hentries hm.overrideExposed,
      grown_mono hentries hm.implements, grown_mono hentries hm.deprecated,
      extras_mono hentries hm.extra⟩

theorem Dictionary.merge_mono (hpq : p ≤ q) {base addition result : Dictionary}
    (h : base.merge p addition = .ok result) : base.merge q addition = .ok result := by
  obtain ⟨hentries, hmembers⟩ := hpq
  have hm := Dictionary.merge_eq_ok_iff.1 h
  exact Dictionary.merge_eq_ok_iff.2
    ⟨hm.name, scalar_mono hentries hm.parent, scalar_mono hentries hm.comment,
      collection_mono (fun _ _ _ => Member.merge_mono hmembers) hmembers hm.members,
      extras_mono hentries hm.extra⟩

/-! ## Graphs -/

theorem Graph.mergeNamespaceLists_mono (hpq : p ≤ q) {base addition result : Option (List Interface)}
    (h : mergeNamespaceLists p base addition = .ok result) :
    mergeNamespaceLists q base addition = .ok result := by
  cases addition with
  | none => exact h
  | some items =>
    rw [mergeNamespaceLists] at h ⊢
    obtain ⟨merged, hm, rfl⟩ := map_eq_ok_iff.1 h
    exact map_eq_ok_iff.2
      ⟨merged, identified_mono (fun _ _ _ => Interface.merge_mono hpq) hpq.1 hm, rfl⟩

theorem Graph.merge_mono (hpq : p ≤ q) {base addition result : Graph}
    (h : base.merge p addition = .ok result) : base.merge q addition = .ok result := by
  have hentries : p.entries ≤ q.entries := hpq.1
  have hinterface : ∀ old new merged : Interface,
      old.merge p new = .ok merged → old.merge q new = .ok merged :=
    fun _ _ _ => Interface.merge_mono hpq
  have htypedefs : ∀ old new merged : List Typedef,
      within "typedef" (mergeTypedefs p.entries old new) = .ok merged →
        within "typedef" (mergeTypedefs q.entries old new) = .ok merged := by
    intro old new merged hm
    rw [within_eq_ok_iff] at hm ⊢
    exact identified_mono (fun _ _ _ => Typedef.merge_mono hentries) hentries hm
  have hm := Graph.merge_eq_ok_iff.1 h
  exact Graph.merge_eq_ok_iff.2
    ⟨collection_mono (fun _ _ _ => CallbackFunction.merge_mono hentries) hentries
        hm.callbackFunctions,
      collection_mono hinterface hentries hm.callbackInterfaces,
      collection_mono (fun _ _ _ => Dictionary.merge_mono hpq) hentries hm.dictionaries,
      collection_mono (fun _ _ _ => Enumeration.merge_mono hentries) hentries hm.enums,
      collection_mono hinterface hentries hm.interfaces,
      collection_mono hinterface hentries hm.mixins,
      optional_mono htypedefs hm.typedefs,
      Graph.mergeNamespaceLists_mono hpq hm.namespaces,
      extras_mono hentries hm.extra⟩

end Definitions

/-! ## All types -/

/-- The types of values that merge. -/
inductive Mergeable where
  | graph
  | interfaces
  | callbackInterfaces
  | mixins
  | dictionaries
  | enums
  | callbackFunctions
  | typedefs
  | interface
  | dictionary
  | enumeration
  | callbackFunction
  | typedef
  | constants
  | methods
  | properties
  | members
  | constant
  | method
  | property
  | constructor
  | iteratorDecl
  | member
  | typeRef
deriving DecidableEq, Repr

namespace Mergeable

/-- The values of a type. -/
def Value : Mergeable → Type
  | graph => Graph
  | interfaces | callbackInterfaces | mixins => Keyed Interface
  | dictionaries => Keyed Dictionary
  | enums => Keyed Enumeration
  | callbackFunctions => Keyed CallbackFunction
  | typedefs => List Typedef
  | interface => Interface
  | dictionary => Dictionary
  | enumeration => Enumeration
  | callbackFunction => CallbackFunction
  | typedef => Typedef
  | constants => Keyed Constant
  | methods => Keyed Method
  | properties => Keyed Property
  | members => Keyed Member
  | constant => Constant
  | method => Method
  | property => Property
  | constructor => Constructor
  | iteratorDecl => IteratorDecl
  | member => Member
  | typeRef => TypeRef

/-- The merge of two values of a type. A value that does not stand in a graph is merged under the
policy for entries; the maps of members stay under the one for members. -/
def merge (policy : MergePolicy) : (t : Mergeable) → t.Value → t.Value → Merging t.Value
  | graph => Graph.merge policy
  | interfaces | callbackInterfaces => fun base addition =>
    within "interface" (keyed policy.entries (Interface.merge policy) base addition)
  | mixins => fun base addition =>
    within "mixin" (keyed policy.entries (Interface.merge policy) base addition)
  | dictionaries => fun base addition =>
    within "dictionary" (keyed policy.entries (Dictionary.merge policy) base addition)
  | enums => fun base addition =>
    within "enum" (keyed policy.entries (Enumeration.merge policy.entries) base addition)
  | callbackFunctions => fun base addition =>
    within "callback-function"
      (keyed policy.entries (CallbackFunction.merge policy.entries) base addition)
  | typedefs => fun base addition => within "typedef" (mergeTypedefs policy.entries base addition)
  | interface => Interface.merge policy
  | dictionary => Dictionary.merge policy
  | enumeration => Enumeration.merge policy.entries
  | callbackFunction => CallbackFunction.merge policy.entries
  | typedef => Typedef.merge policy.entries
  | constants => fun base addition =>
    within "constant" (keyed policy.members (Constant.merge policy.members) base addition)
  | methods => fun base addition =>
    within "method" (keyed policy.members (Method.merge policy.members) base addition)
  | properties => fun base addition =>
    within "property" (keyed policy.members (Property.merge policy.members) base addition)
  | members => fun base addition =>
    within "member" (keyed policy.members (Member.merge policy.members) base addition)
  | constant => Constant.merge policy.entries
  | method => Method.merge policy.entries
  | property => Property.merge policy.entries
  | constructor => Constructor.merge policy.entries
  | iteratorDecl => IteratorDecl.merge policy.entries
  | member => Member.merge policy.entries
  | typeRef => TypeRef.merge policy.entries

theorem within_keyed_mono {p q : Policy} (hpq : p ≤ q) {join join' : α → α → Merging α}
    (hjoin : ∀ old new merged, join old new = .ok merged → join' old new = .ok merged)
    {entries : String} {base addition result : Keyed α}
    (h : within entries (keyed p join base addition) = .ok result) :
    within entries (keyed q join' base addition) = .ok result :=
  within_eq_ok_iff.2 (keyed_mono hjoin hpq (within_eq_ok_iff.1 h))

/-- **A more permissive policy accepts more and changes nothing else**: a merge that ends well under
one policy ends the same under every policy above it. -/
theorem merge_of_le {p q : MergePolicy} (hpq : p ≤ q) (t : Mergeable) {base addition result : t.Value}
    (h : t.merge p base addition = .ok result) : t.merge q base addition = .ok result := by
  have hentries : p.entries ≤ q.entries := hpq.1
  have hmembers : p.members ≤ q.members := hpq.2
  cases t with
  | graph => exact Graph.merge_mono hpq h
  | interfaces | callbackInterfaces | mixins =>
    exact within_keyed_mono hentries (fun _ _ _ => Interface.merge_mono hpq) h
  | dictionaries => exact within_keyed_mono hentries (fun _ _ _ => Dictionary.merge_mono hpq) h
  | enums => exact within_keyed_mono hentries (fun _ _ _ => Enumeration.merge_mono hentries) h
  | callbackFunctions =>
    exact within_keyed_mono hentries (fun _ _ _ => CallbackFunction.merge_mono hentries) h
  | typedefs =>
    exact within_eq_ok_iff.2
      (identified_mono (fun _ _ _ => Typedef.merge_mono hentries) hentries (within_eq_ok_iff.1 h))
  | interface => exact Interface.merge_mono hpq h
  | dictionary => exact Dictionary.merge_mono hpq h
  | enumeration => exact Enumeration.merge_mono hentries h
  | callbackFunction => exact CallbackFunction.merge_mono hentries h
  | typedef => exact Typedef.merge_mono hentries h
  | constants => exact within_keyed_mono hmembers (fun _ _ _ => Constant.merge_mono hmembers) h
  | methods => exact within_keyed_mono hmembers (fun _ _ _ => Method.merge_mono hmembers) h
  | properties => exact within_keyed_mono hmembers (fun _ _ _ => Property.merge_mono hmembers) h
  | members => exact within_keyed_mono hmembers (fun _ _ _ => Member.merge_mono hmembers) h
  | constant => exact Constant.merge_mono hentries h
  | method => exact Method.merge_mono hentries h
  | property => exact Property.merge_mono hentries h
  | constructor => exact Constructor.merge_mono hentries h
  | iteratorDecl => exact IteratorDecl.merge_mono hentries h
  | member => exact Member.merge_mono hentries h
  | typeRef => exact TypeRef.merge_mono hentries h

end Mergeable

/-- A graph with an interface, an enumeration and a type definition. -/
def relayGraph : Graph where
  interfaces := some (.ofList [("Relay", {
    name := "Relay"
    methods := some (.ofList [("pass", { name := "pass", signatures := [{}] })])
    exposed := some (.ofList ["Window"]) })])
  enums := some (.ofList [("Leg", { name := "Leg", values := ["first"] })])
  typedefs := some [{ name := "Lap", type := ⟨some (.named "long"), none, none⟩ }]

/-- New things for each of them. -/
def relayAdditions : Graph where
  interfaces := some (.ofList [("Relay", {
    name := "Relay"
    parent := some "Race"
    methods := some (.ofList [("drop", { name := "drop", signatures := [{}] })])
    extra := .ofList [("tags", .obj [("teams", .num (.int 4))])] })])
  enums := some (.ofList [("Leg", { name := "Leg", values := ["last"] })])
  typedefs := some [{ name := "Lap", comment := some "Counted." }, { name := "Baton" }]

/-- Both together. -/
def relayMerged : Graph where
  interfaces := some (.ofList [("Relay", {
    name := "Relay"
    parent := some "Race"
    methods := some (.ofList [("drop", { name := "drop", signatures := [{}] }),
      ("pass", { name := "pass", signatures := [{}] })])
    exposed := some (.ofList ["Window"])
    extra := .ofList [("tags", .obj [("teams", .num (.int 4))])] })])
  enums := some (.ofList [("Leg", { name := "Leg", values := ["first", "last"] })])
  typedefs := some [
    { name := "Lap", type := ⟨some (.named "long"), none, none⟩, comment := some "Counted." },
    { name := "Baton" }]

/-- What additions may do, overrides may do as well. -/
theorem relayGraph_merge_above :
    MergePolicy.additive ≤ .override ∧
      Mergeable.graph.merge .additive relayGraph relayAdditions = .ok relayMerged ∧
      Mergeable.graph.merge .override relayGraph relayAdditions = .ok relayMerged := by
  have hpolicy : MergePolicy.additive ≤ .override := by decide
  have h : relayGraph.merge .additive relayAdditions = .ok relayMerged := by decide +kernel
  exact ⟨hpolicy, h, Mergeable.merge_of_le hpolicy .graph h⟩

end IdlDecls
