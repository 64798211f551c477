import IdlDecls.Proofs.Exposure.Resolved
import IdlDecls.Proofs.Merge.Fields

/-!
# Members by kind

Constants, methods and properties stand under names in collections of their own and have their
exposures in common. `Interface.memberExposure?` finds the exposure of a member of any kind, and a
merge of interfaces joins these exposures name by name (`Interface.memberExposure?_merge`,
`Interface.memberExposure?_mergeMembers`), so that a member is there after a merge exactly if one of
the sides has it.
-/

namespace IdlDecls

open Merge Merging

/-- A kind of members that interfaces have under names. -/
inductive MemberKind where
  | constant
  | method
  | property
deriving DecidableEq, Repr

namespace Interface

/-- The exposure of the member of a kind with a name, if the interface has one. -/
def memberExposure? (i : Interface) (name : String) : MemberKind → Option (Option Exposure)
  | .constant => (i.constant? name).map (·.exposed)
  | .method => (i.method? name).map (·.exposed)
  | .property => (i.property? name).map (·.exposed)

/-- Whether the interface has a member of a kind with a name. -/
def hasMember (i : Interface) (name : String) (kind : MemberKind) : Bool :=
  (i.memberExposure? name kind).isSome

end Interface

/-! ## Collections -/

section Collections

variable {α : Type} {level : Policy} {field entries : String} {join : α → α → Merging α}
  {base addition result : Option (Keyed α)}

theorem isSome_lookup?_collection
    (h : collection level field entries join base addition = .ok result) (name : String) :
    (lookup? result name).isSome = ((lookup? base name).isSome || (lookup? addition name).isSome) :=
  (lookup?_collection h name).isSome_eq

/-- What merging two entries makes of them, merging two collections makes at every name. -/
theorem joined_lookup?_collection {S : α → α → α → Prop}
    (hjoin : ∀ old new merged, join old new = .ok merged → S old new merged)
    (h : collection level field entries join base addition = .ok result) (name : String) :
    Joined S (lookup? base name) (lookup? addition name) (lookup? result name) :=
  (lookup?_collection h name).mono fun old new merged hm =>
    hjoin old new merged (shared_eq_ok_iff.1 hm).2

/-- What merging two entries keeps, merging two collections keeps at every name. -/
theorem any_lookup?_collection {p : α → Bool}
    (hjoin : ∀ old new merged, join old new = .ok merged → p merged = (p old || p new))
    (h : collection level field entries join base addition = .ok result) (name : String) :
    (lookup? result name).any p = ((lookup? base name).any p || (lookup? addition name).any p) :=
  (joined_lookup?_collection hjoin h name).any_eq fun _ _ _ hany => hany

/-- The exposures of entries are merged with them. -/
theorem exposed_collection {exposed : α → Option Exposure}
    (hjoin : ∀ old new merged, join old new = .ok merged →
      exposure level (exposed old) (exposed new) = .ok (exposed merged))
    (h : collection level field entries join base addition = .ok result) (name : String) :
    Joined (fun old new merged => exposure level old new = .ok merged)
      ((lookup? base name).map exposed) ((lookup? addition name).map exposed)
      ((lookup? result name).map exposed) :=
  (joined_lookup?_collection hjoin h name).map fun _ _ _ hexposed => hexposed

end Collections

/-! ## Interfaces -/

namespace Interface

section Merging

variable {policy : MergePolicy} {base addition result : Interface}

/-- The merges that make up a merge of members, and what they leave alone. -/
theorem mergeMembers_eq_ok_iff : base.mergeMembers policy addition = .ok result ↔
    base.mergeConstants policy.members addition = .ok result.constants ∧
      base.mergeMethods policy.members addition = .ok result.methods ∧
      base.mergeProperties policy.members addition = .ok result.properties ∧
      result = { base with
        constants := result.constants
        methods := result.methods
        properties := result.properties } := by
  simp only [mergeMembers, within_eq_ok_iff, bind_eq_ok_iff, pure_eq_ok_iff]
  constructor
  · rintro ⟨_, hconstants, _, hmethods, _, hproperties, rfl⟩
    exact ⟨hconstants, hmethods, hproperties, rfl⟩
  · rintro ⟨hconstants, hmethods, hproperties, heq⟩
    exact ⟨_, hconstants, _, hmethods, _, hproperties, heq.symm⟩

/-- Members of every kind are merged by name, and their exposures with them. -/
theorem memberExposure?_joined {level : Policy}
    (hconstants : base.mergeConstants level addition = .ok result.constants)
    (hmethods : base.mergeMethods level addition = .ok result.methods)
    (hproperties : base.mergeProperties level addition = .ok result.properties) (name : String)
    (kind : MemberKind) :
    Joined (fun old new merged => exposure level old new = .ok merged)
      (base.memberExposure? name kind) (addition.memberExposure? name kind)
      (result.memberExposure? name kind) := by
  cases kind with
  | constant =>
    exact exposed_collection (fun _ _ _ h => (Constant.merge_eq_ok_iff.1 h).exposed) hconstants name
  | method =>
    exact exposed_collection (fun _ _ _ h => (Method.merge_eq_ok_iff.1 h).exposed) hmethods name
  | property =>
    exact exposed_collection (fun _ _ _ h => (Property.merge_eq_ok_iff.1 h).exposed) hproperties name

theorem memberExposure?_merge (h : base.merge policy addition = .ok result) (name : String)
    (kind : MemberKind) :
    Joined (fun old new merged => exposure policy.members old new = .ok merged)
      (base.memberExposure? name kind) (addition.memberExposure? name kind)
      (result.memberExposure? name kind) := by
  have hm := Interface.merge_eq_ok_iff.1 h
  exact memberExposure?_joined hm.constants hm.methods hm.properties name kind

theorem memberExposure?_mergeMembers (h : base.mergeMembers policy addition = .ok result)
    (name : String) (kind : MemberKind) :
    Joined (fun old new merged => exposure policy.members old new = .ok merged)
      (base.memberExposure? name kind) (addition.memberExposure? name kind)
      (result.memberExposure? name kind) := by
  obtain ⟨hconstants, hmethods, hproperties, -⟩ := mergeMembers_eq_ok_iff.1 h
  exact memberExposure?_joined hconstants hmethods hproperties name kind

theorem hasMember_merge (h : base.merge policy addition = .ok result) (name : String)
    (kind : MemberKind) :
    result.hasMember name kind = (base.hasMember name kind || addition.hasMember name kind) :=
  (memberExposure?_merge h name kind).isSome_eq

end Merging

/-- An exposure that is applied to an interface reaches its members of every kind. -/
theorem memberExposure?_expose (mode : ExposureMode) (exposure : Exposure) (i : Interface)
    (name : String) (kind : MemberKind) :
    (i.expose mode exposure).memberExposure? name kind =
      (i.memberExposure? name kind).map (mode.apply exposure) := by
  cases kind with
  | constant =>
    simp only [memberExposure?, constant?_expose, Option.map_map]
    rfl
  | method =>
    simp only [memberExposure?, method?_expose, Option.map_map]
    rfl
  | property =>
    simp only [memberExposure?, property?_expose, Option.map_map]
    rfl

theorem hasMember_expose (mode : ExposureMode) (exposure : Exposure) (i : Interface)
    (name : String) (kind : MemberKind) :
    (i.expose mode exposure).hasMember name kind = i.hasMember name kind := by
  rw [hasMember, memberExposure?_expose, Option.isSome_map, hasMember]

end Interface

end IdlDecls
