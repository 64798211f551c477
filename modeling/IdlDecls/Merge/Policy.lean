/-!
# Merge policies and conflicts

A policy says what happens where both sides of a merge define the same thing. A graph is merged under
two of them, one for its definitions and one for their members. A merge that a policy forbids ends in
a conflict, which holds the way from the merged value down to the place.
-/

namespace IdlDecls

/-- What happens where both sides define the same thing. -/
inductive Policy where
  /-- A name on both sides is a conflict. -/
  | reject
  /-- Shared names merge; changing a value that is set is a conflict. -/
  | extend
  /-- Shared names merge; the values of the addition win. -/
  | override
deriving DecidableEq, Repr

/-- The place of a policy in the order from strict to permissive. -/
def Policy.rank : Policy → Nat
  | .reject => 0
  | .extend => 1
  | .override => 2

/-- A policy is below another that is at least as permissive. -/
instance : LE Policy := ⟨fun p q => p.rank ≤ q.rank⟩

instance (p q : Policy) : Decidable (p ≤ q) := inferInstanceAs (Decidable (p.rank ≤ q.rank))

/-- The policies for the two levels of a graph. -/
structure MergePolicy where
  /-- For definitions and their own fields. -/
  entries : Policy
  /-- For constants, methods, properties and dictionary members and everything below them. -/
  members : Policy
deriving DecidableEq, Repr

namespace MergePolicy

/-- Both sides must be disjoint (`STRICT`). -/
def strict : MergePolicy := ⟨.reject, .reject⟩

/-- Definitions may gain members but not be redefined (`STANDARD`). -/
def standard : MergePolicy := ⟨.extend, .override⟩

/-- New things anywhere, but nothing that exists (`ADDITIVE`). -/
def additive : MergePolicy := ⟨.extend, .reject⟩

/-- The addition wins everywhere (`OVERRIDE`). -/
def override : MergePolicy := ⟨.override, .override⟩

/-- Merge policies are compared level by level. -/
instance : LE MergePolicy := ⟨fun p q => p.entries ≤ q.entries ∧ p.members ≤ q.members⟩

instance (p q : MergePolicy) : Decidable (p ≤ q) :=
  inferInstanceAs (Decidable (p.entries ≤ q.entries ∧ p.members ≤ q.members))

end MergePolicy

/-- Two definitions that a policy does not let merge, with the field names, keys and identities that
lead to them. -/
structure Conflict where
  path : List String
deriving DecidableEq, Repr

/-- The path with dots between its segments (`conflict`). A scope whose text is empty adds no dot
before the last segment. -/
def Conflict.pathText (c : Conflict) : String :=
  let scope := ".".intercalate c.path.dropLast
  let last := c.path.getLast?.getD ""
  if scope = "" then last else scope ++ "." ++ last

/-- The result of a merge. -/
abbrev Merging := Except Conflict

namespace Merging

variable {α : Type}

/-- A conflict at the merged value itself (`conflict`). -/
def conflict : Merging α := .error ⟨[]⟩

/-- Merging below a segment of the path: a conflict inside is reported behind the segment
(`scoped`). -/
def within (segment : String) : Merging α → Merging α
  | .ok value => .ok value
  | .error c => .error ⟨segment :: c.path⟩

@[simp] theorem within_ok (segment : String) (value : α) :
    within segment (.ok value) = .ok value := rfl

@[simp] theorem within_eq_ok_iff {segment : String} {m : Merging α} {value : α} :
    within segment m = .ok value ↔ m = .ok value := by
  cases m <;> simp [within]

end Merging

end IdlDecls
