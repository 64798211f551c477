import IdlDecls.Proofs.Merge.Fields
import IdlDecls.Proofs.Merge.Marks
import IdlDecls.Proofs.Model.Conventions

/-!
# Included mixins in a merge

A merge unites the lists of mixins that two interfaces include. The union has the mixins of both sides,
and a mixin is there more than once only if the base has it more than once: the names of the addition
come to the list one by one, each only if it is not there yet. Where the base has no list, that of the
addition is taken as it is, so it has to be free of repetitions by itself.
-/

namespace IdlDecls

open Merge Merging

/-! ## Names -/

theorem mem_unionNames {base addition : List String} {name : String} :
    name ∈ unionNames base addition ↔ name ∈ base ∨ name ∈ addition := by
  rw [unionNames_eq, mem_joinedNames]

/-- **A union repeats what its base repeats**: a name that comes to the list was not there. -/
theorem repeats_unionNames {base addition : List String} {name : String} :
    1 < (unionNames base addition).count name ↔ 1 < base.count name := by
  induction addition generalizing base with
  | nil => rfl
  | cons added rest ih =>
    rw [unionNames_cons]
    by_cases hadded : added ∈ base
    · rw [if_pos hadded, ih]
    · rw [if_neg hadded, ih, List.count_append]
      by_cases hname : added = name
      · subst hname
        simp [List.count_eq_zero_of_not_mem hadded]
      · simp [hname]

section Lists

variable {base addition result : Option (List String)}

/-- What a merge makes of two lists of names. -/
theorem grown_unionNames {active : Policy}
    (h : grown active unionNames base addition = .ok result) :
    Joined (fun old new merged => merged = unionNames old new) base addition result :=
  (optional_eq_ok_iff.1 h).mono fun _ _ _ => eq_of_settle

variable (h : Joined (fun old new merged => merged = unionNames old new) base addition result)
include h

theorem mem_joined_unionNames (name : String) :
    name ∈ result.getD [] ↔ name ∈ base.getD [] ∨ name ∈ addition.getD [] := by
  cases h with
  | base => simp
  | addition => simp
  | both h => simp [h, mem_unionNames]

theorem repeats_joined_unionNames (ha : (addition.getD []).Nodup) (name : String) :
    1 < (result.getD []).count name ↔ 1 < (base.getD []).count name := by
  cases h with
  | base => rfl
  | addition =>
    have hone := List.nodup_iff_count.1 ha name
    simp only [Option.getD_none, List.count_nil]
    omega
  | both h =>
    rw [h]
    exact repeats_unionNames

end Lists

/-! ## Graphs -/

/-- The list of mixins that an entry of a collection includes, if it has one. -/
def Graph.implements? (g : Graph) (c : Collection) (name : String) : Option (List String) :=
  (c.get? g name).bind (·.implements)

/-- The mixins that an entry of a collection includes. -/
def Graph.implementsOf (g : Graph) (c : Collection) (name : String) : List String :=
  (g.implements? c name).getD []

/-- No interface and no mixin includes a mixin more than once. -/
structure Graph.ImplementsDistinct (g : Graph) : Prop where
  interfaces : EachEntry (fun _ i => (i.implements.getD []).Nodup) g.interfaces
  mixins : EachEntry (fun _ i => (i.implements.getD []).Nodup) g.mixins

instance (g : Graph) : Decidable g.ImplementsDistinct :=
  decidable_of_iff (_ ∧ _) ⟨fun h => ⟨h.1, h.2⟩, fun h => ⟨h.1, h.2⟩⟩

theorem Graph.ImplementsDistinct.nodup {g : Graph} (hg : g.ImplementsDistinct) (c : Collection)
    (name : String) : (g.implementsOf c name).Nodup := by
  rw [Graph.implementsOf, Graph.implements?]
  cases hi : c.get? g name with
  | none => exact .nil
  | some i =>
    cases c with
    | interfaces => exact hg.interfaces name i hi
    | mixins => exact hg.mixins name i hi

section Graph

variable {policy : MergePolicy} {base addition result : Graph}

/-- The entries of both collections are merged by name. -/
theorem Graph.joined_merge (h : base.merge policy addition = .ok result) (c : Collection)
    (name : String) :
    Joined (fun old new merged => old.merge policy new = .ok merged) (c.get? base name)
      (c.get? addition name) (c.get? result name) := by
  have hm := Graph.merge_eq_ok_iff.1 h
  cases c with
  | interfaces =>
    exact (lookup?_collection hm.interfaces name).mono fun _ _ _ h => (shared_eq_ok_iff.1 h).2
  | mixins => exact (lookup?_collection hm.mixins name).mono fun _ _ _ h => (shared_eq_ok_iff.1 h).2

theorem Graph.implements?_merge (h : base.merge policy addition = .ok result) (c : Collection)
    (name : String) :
    Joined (fun old new merged => merged = unionNames old new) (base.implements? c name)
      (addition.implements? c name) (result.implements? c name) :=
  (Graph.joined_merge h c name).bind fun _ _ _ hm =>
    grown_unionNames (Interface.merge_eq_ok_iff.1 hm).implements

/-- **The mixins of both sides are included.** -/
theorem Graph.mem_implementsOf_merge (h : base.merge policy addition = .ok result) (c : Collection)
    (name mixin : String) : mixin ∈ result.implementsOf c name ↔
      mixin ∈ base.implementsOf c name ∨ mixin ∈ addition.implementsOf c name :=
  mem_joined_unionNames (Graph.implements?_merge h c name) mixin

/-- **A merge brings no repetition**, under any policy. -/
theorem Graph.repeats_merge (h : base.merge policy addition = .ok result) {c : Collection}
    {name : String} (ha : (addition.implementsOf c name).Nodup) (mixin : String) :
    1 < (result.implementsOf c name).count mixin ↔ 1 < (base.implementsOf c name).count mixin :=
  repeats_joined_unionNames (Graph.implements?_merge h c name) ha mixin

end Graph

end IdlDecls
