import IdlDecls.Json.Basic
import IdlDecls.Keyed.Basic
import IdlDecls.Merge.Policy
import IdlDecls.Model.Exposure

/-!
# Merging fields

How a field merges depends on its kind: a single value (`scalar`, `literal`), a set that may only grow
(`grown`, `exposure`, `deprecation`), a nested record (`optional`), a collection (`keyed`), a list
whose items have identities (`identified`) and JSON without a meaning (`json`, `extras`). In each,
what the addition leaves out stays as it is, and what the base leaves out is taken from the addition
as it is. Only a change of something that is set asks the policy.
-/

namespace IdlDecls.Merge

open Merging

variable {α : Type}

/-! ## Single values and sets -/

/-- Puts a new value in place of an old one, unless the two look the same. A value that differs needs
`override`. -/
def settleBy {β : Type} [DecidableEq β] (look : α → β) (active : Policy) (old new : α) :
    Merging α :=
  if look new = look old then .ok old
  else match active with
    | .override => .ok new
    | .reject | .extend => conflict

/-- Puts a new value in place of an old one. A value that differs needs `override`. -/
def settle [DecidableEq α] (active : Policy) (old new : α) : Merging α :=
  settleBy id active old new

/-- Puts a JSON value in place of another. Zeros do not differ by their signs. -/
def settleJson (active : Policy) (old new : Json) : Merging Json :=
  settleBy Json.unsignedZeros active old new

/-- Merges what both sides have; what only one side has is the result (`record`). -/
def optional (join : α → α → Merging α) : Option α → Option α → Merging (Option α)
  | base, none => .ok base
  | none, some value => .ok (some value)
  | some old, some value => some <$> join old value

/-- A single value (`scalar`). -/
def scalar [DecidableEq α] (active : Policy) : Option α → Option α → Merging (Option α) :=
  optional (settle active)

/-- A single JSON value. -/
def literal (active : Policy) : Option Json → Option Json → Merging (Option Json) :=
  optional (settleJson active)

/-- A set that may only grow; growing it changes it (`grow`). -/
def grown [DecidableEq α] (active : Policy) (union : α → α → α) :
    Option α → Option α → Merging (Option α) :=
  optional fun old value => settle active old (union old value)

/-- A deprecation mark, which is never cleared (`sticky`). -/
def deprecation (active : Policy) : Option Bool → Option Bool → Merging (Option Bool) :=
  grown active (· || ·)

/-- The names of a list followed by those of another that are not there yet (`names`). -/
def unionNames (base addition : List String) : List String :=
  addition.foldl (fun acc name => if acc.contains name then acc else acc ++ [name]) base

/-- An exposure; an empty one counts as absent (`exposure`). -/
def exposure (active : Policy) (base addition : Option Exposure) : Merging (Option Exposure) :=
  match Exposure.nonempty? addition with
  | none => .ok base
  | some value => grown active Exposure.extend (Exposure.nonempty? base) (some value)

/-! ## Collections -/

/-- A shared entry: `reject` forbids it, the other policies merge it. -/
def shared (level : Policy) (name : String) (join : α → α → Merging α) (old value : α) :
    Merging α :=
  within name (if level = .reject then conflict else join old value)

/-- A collection: new entries are added as they are (`entries`). -/
def keyed (level : Policy) (join : α → α → Merging α) : Keyed α → Keyed α → Merging (Keyed α) :=
  Keyed.joinM fun name => shared level name join

/-- A collection that may be left out, under the names of its field and of its entries (`record`,
then `entries`). -/
def collection (level : Policy) (field entries : String) (join : α → α → Merging α)
    (base addition : Option (Keyed α)) : Merging (Option (Keyed α)) :=
  within field (optional (fun old value => within entries (keyed level join old value))
    base addition)

/-- Merges an item into the first of a list's items with its identity, or adds it at the end. An item
with an empty identity is always added. -/
def identifiedItem (level : Policy) (identity : α → String) (join : α → α → Merging α) :
    List α → α → Merging (List α)
  | [], item => .ok [item]
  | old :: rest, item =>
    if identity item ≠ "" ∧ identity old = identity item then
      (· :: rest) <$> shared level (identity item) join old item
    else (old :: ·) <$> identifiedItem level identity join rest item

/-- A list whose items are told apart by their identities (`identified`). -/
def identified (level : Policy) (identity : α → String) (join : α → α → Merging α)
    (base addition : List α) : Merging (List α) :=
  addition.foldlM (identifiedItem level identity join) base

/-! ## JSON -/

mutual

/-- JSON without a meaning: objects merge by key, arrays are joined, and anything else is a single
value (`json`). -/
def json (active : Policy) : Json → Json → Merging Json
  | .obj base, .obj addition => .obj <$> jsonFields active base addition
  | .arr base, .arr addition => .ok (.arr (base ++ addition))
  | base, addition => settleJson active base addition

/-- Fields one by one; a new key is put at its place (`object`). -/
def jsonFields (active : Policy) :
    List (String × Json) → List (String × Json) → Merging (List (String × Json))
  | base, [] => .ok base
  | base, (key, value) :: rest =>
    match Entries.get? base key with
    | none => jsonFields active (Entries.insert key value base) rest
    | some old =>
      match within key (json active old value) with
      | .ok merged => jsonFields active (Entries.insert key merged base) rest
      | .error c => .error c

end

/-- The extra fields of a definition (`object`). -/
def extras (active : Policy) : Keyed Json → Keyed Json → Merging (Keyed Json) :=
  Keyed.joinM fun key old value => within key (json active old value)

/-! ## Laws -/

/-- A value in place of itself is no change under any policy. -/
@[simp] theorem settleBy_self {β : Type} [DecidableEq β] (look : α → β) (active : Policy)
    (value : α) : settleBy look active value value = .ok value := by
  simp [settleBy]

theorem settle_override [DecidableEq α] (old new : α) : settle .override old new = .ok new := by
  unfold settle settleBy
  split <;> simp_all

@[simp] theorem optional_none (join : α → α → Merging α) (base : Option α) :
    optional join base none = .ok base := by
  cases base <;> rfl

@[simp] theorem optional_none_left (join : α → α → Merging α) (addition : Option α) :
    optional join none addition = .ok addition := by
  cases addition <;> rfl

end IdlDecls.Merge
