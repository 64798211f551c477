import IdlDecls.Proofs.Merge.Conserved
import IdlDecls.Proofs.Merge.Overridden

/-!
# Merges keep names apart

The type definitions and the namespaces of a graph are lists that are searched by name, and an item
that an addition brings is searched for in the list as it has grown so far. So no name of a merged list
repeats where none of the base repeats, under every policy; the addition matters only where the base
has no list of type definitions and takes that of the addition as it is (`Graph.IdentitiesDistinct.merge`).
An item without a name goes by none and is never searched for.
-/

namespace IdlDecls

open Merge Merging

/-! ## Lists -/

/-- Items keep their indices and their identities. -/
def IdentitiesKept {α : Type} (identity : α → String) (base result : List α) : Prop :=
  KeptInPlace (fun old new => identity new = identity old) base result

section Lists

variable {α : Type} {level : Policy} {identity : α → String} {join : α → α → Merging α}
  {base addition result : List α}

theorem identitiesKept_of_identified
    (hname : ∀ old new m, join old new = .ok m → identity m = identity old)
    (h : identified level identity join base addition = .ok result) :
    IdentitiesKept identity base result :=
  kept_identified (R := fun old new => identity new = identity old) (fun _ => rfl)
    (fun _ _ _ hab hbc => hbc.trans hab) (fun old new m _ hm => hname old new m hm) h

end Lists

theorem Typedef.name_of_merge {active : Policy} (old new merged : Typedef)
    (h : old.merge active new = .ok merged) : merged.name = old.name :=
  (Typedef.merge_eq_ok_iff.1 h).name

theorem Interface.name_of_merge {policy : MergePolicy} (old new merged : Interface)
    (h : old.merge policy new = .ok merged) : merged.name = old.name :=
  (Interface.merge_eq_ok_iff.1 h).name

/-! ## Graphs -/

/-- Every type definition and every namespace keeps its index and its name. -/
structure Graph.IdentitiesKept (base result : Graph) : Prop where
  typedefs : IdlDecls.IdentitiesKept Typedef.name (base.typedefs.getD []) (result.typedefs.getD [])
  namespaces :
    IdlDecls.IdentitiesKept Interface.name (base.namespaces.getD []) (result.namespaces.getD [])

section Graph

variable {policy : MergePolicy} {base addition result : Graph}

/-- The type definitions of a merge are those of the addition, or a merge into those of the base. -/
theorem Graph.typedefs_merge_cases (h : base.merge policy addition = .ok result) :
    (base.typedefs = none ∧ result.typedefs = addition.typedefs) ∨
      ∃ more, mergeTypedefs policy.entries (base.typedefs.getD []) more =
        .ok (result.typedefs.getD []) := by
  have hm := (Graph.merge_eq_ok_iff.1 h).typedefs
  rw [optional_eq_ok_iff] at hm
  cases hbase : base.typedefs with
  | none => exact Or.inl ⟨rfl, Joined.none_left_iff.1 (hbase ▸ hm)⟩
  | some old =>
    rw [hbase] at hm
    cases hadd : addition.typedefs with
    | none =>
      rw [hadd, Joined.none_right_iff] at hm
      exact Or.inr ⟨[], by rw [hm]; rfl⟩
    | some new =>
      rw [hadd, Joined.some_some_iff] at hm
      obtain ⟨merged, hresult, hmerged⟩ := hm
      exact Or.inr ⟨new, by rw [hresult]; exact within_eq_ok_iff.1 hmerged⟩

/-- The namespaces of a merge are always a merge into those of the base. -/
theorem Graph.exists_mergeNamespaces (h : base.merge policy addition = .ok result) :
    ∃ more, mergeNamespaces policy (base.namespaces.getD []) more =
      .ok (result.namespaces.getD []) := by
  have hm := (Graph.merge_eq_ok_iff.1 h).namespaces
  cases hadd : addition.namespaces with
  | none =>
    rw [hadd] at hm
    exact ⟨[], by rw [← Except.ok.inj hm]; rfl⟩
  | some new =>
    rw [hadd] at hm
    obtain ⟨merged, hmerged, hresult⟩ := map_eq_ok_iff.1 hm
    exact ⟨new, by rw [← hresult]; exact hmerged⟩

/-- **A merge keeps names apart**, under every policy. -/
theorem Graph.IdentitiesDistinct.merge (hb : base.IdentitiesDistinct)
    (ha : addition.IdentitiesDistinct) (h : base.merge policy addition = .ok result) :
    result.IdentitiesDistinct where
  typedefs := by
    rcases Graph.typedefs_merge_cases h with ⟨-, hresult⟩ | ⟨more, hmerged⟩
    · rw [hresult]
      exact ha.typedefs
    · exact hb.typedefs.identified Typedef.name_of_merge hmerged
  namespaces := by
    obtain ⟨more, hmerged⟩ := Graph.exists_mergeNamespaces h
    exact hb.namespaces.identified Interface.name_of_merge hmerged

/-- **A merge keeps every item in its place and under its name.** -/
theorem Graph.identitiesKept_merge (h : base.merge policy addition = .ok result) :
    base.IdentitiesKept result where
  typedefs := by
    rcases Graph.typedefs_merge_cases h with ⟨hbase, -⟩ | ⟨more, hmerged⟩
    · rw [hbase]
      exact fun _ => nofun
    · exact identitiesKept_of_identified Typedef.name_of_merge hmerged
  namespaces := by
    obtain ⟨more, hmerged⟩ := Graph.exists_mergeNamespaces h
    exact identitiesKept_of_identified Interface.name_of_merge hmerged

end Graph

end IdlDecls
