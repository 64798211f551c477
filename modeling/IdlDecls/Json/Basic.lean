import IdlDecls.Keyed.Entries

/-!
# JSON values

The values of the data files. A number is a whole number or a 64-bit float, and the two are never
equal: `1` and `1.0` are different values. An object is the list of its fields as a text spells
them; `Json.canonical` gives the value that the fields stand for, with ascending keys and the last
of repeated fields. Equality is decidable and structural; `Json.unsignedZeros` takes the signs off
zeros for those who compare numbers by their size.
-/

namespace IdlDecls

/-- A number: a whole number of the signed or unsigned 64-bit range, or a finite binary64 word. -/
inductive Number where
  | int (value : Int)
  | float (word : UInt64)
deriving DecidableEq, Repr

/-- The first whole number above the signed 64-bit range. -/
def Number.signedLimit : Nat := 0x8000000000000000

/-- The first whole number above the unsigned 64-bit range. -/
def Number.unsignedLimit : Nat := 0x10000000000000000

/-- Whether a whole number is in the signed 64-bit range. -/
def Number.isSigned (n : Int) : Bool := -(signedLimit : Int) ≤ n && n < (signedLimit : Int)

/-- The float zero with a minus sign. -/
def Number.negativeZero : UInt64 := 0x8000000000000000

/-- A number, but zero in place of the float zero with a minus sign. -/
def Number.unsignedZero : Number → Number
  | .float word => .float (if word = negativeZero then 0 else word)
  | n => n

/-- A JSON value. -/
inductive Json where
  | null
  | bool (value : Bool)
  | num (value : Number)
  | str (value : String)
  | arr (items : List Json)
  | obj (fields : List (String × Json))

namespace Json

instance : Inhabited Json := ⟨.null⟩

/-- Whether a value is null. -/
def isNull : Json → Bool
  | .null => true
  | _ => false

/-! ## Equality -/

mutual

/-- Whether two values are the same. -/
def same : Json → Json → Bool
  | .null, .null => true
  | .bool a, .bool b => a == b
  | .num a, .num b => a == b
  | .str a, .str b => a == b
  | .arr a, .arr b => sameItems a b
  | .obj a, .obj b => sameFields a b
  | _, _ => false

/-- Whether two lists hold the same values. -/
def sameItems : List Json → List Json → Bool
  | [], [] => true
  | a :: as, b :: bs => same a b && sameItems as bs
  | _, _ => false

/-- Whether two lists hold the same fields. -/
def sameFields : List (String × Json) → List (String × Json) → Bool
  | [], [] => true
  | (k, a) :: as, (j, b) :: bs => k == j && same a b && sameFields as bs
  | _, _ => false

end

mutual

theorem same_iff : (a b : Json) → (same a b = true ↔ a = b)
  | .null, b => by cases b <;> simp [same]
  | .bool _, b => by cases b <;> simp [same]
  | .num _, b => by cases b <;> simp [same]
  | .str _, b => by cases b <;> simp [same]
  | .arr as, b => by cases b <;> simp [same, sameItems_iff as]
  | .obj as, b => by cases b <;> simp [same, sameFields_iff as]

theorem sameItems_iff : (as bs : List Json) → (sameItems as bs = true ↔ as = bs)
  | [], bs => by cases bs <;> simp [sameItems]
  | a :: as, bs => by cases bs <;> simp [sameItems, same_iff a, sameItems_iff as]

theorem sameFields_iff : (as bs : List (String × Json)) → (sameFields as bs = true ↔ as = bs)
  | [], bs => by cases bs <;> simp [sameFields]
  | (k, a) :: as, bs => by
    rcases bs with _ | ⟨⟨j, b⟩, bs⟩
    · simp [sameFields]
    · simp [sameFields, same_iff a, sameFields_iff as]

end

instance : DecidableEq Json := fun a b => decidable_of_iff (same a b = true) (same_iff a b)

/-! ## Canonical values -/

mutual

/-- The value that a tree spells: at every depth the keys ascend and the last of repeated fields
stays. -/
def canonical : Json → Json
  | .arr items => .arr (canonicalItems items)
  | .obj fields => .obj (Entries.sorted (canonicalFields fields))
  | j => j

/-- The values of a list. -/
def canonicalItems : List Json → List Json
  | [] => []
  | j :: rest => canonical j :: canonicalItems rest

/-- The fields of a list with their values made canonical, in the same order. -/
def canonicalFields : List (String × Json) → List (String × Json)
  | [] => []
  | (k, j) :: rest => (k, canonical j) :: canonicalFields rest

end

/-! ## Signs of zeros -/

mutual

/-- A value whose float zeros have no sign. -/
def unsignedZeros : Json → Json
  | .num number => .num number.unsignedZero
  | .arr items => .arr (unsignedItems items)
  | .obj fields => .obj (unsignedFields fields)
  | j => j

/-- The values of a list without signs of zeros. -/
def unsignedItems : List Json → List Json
  | [] => []
  | j :: rest => unsignedZeros j :: unsignedItems rest

/-- The fields of a list without signs of zeros. -/
def unsignedFields : List (String × Json) → List (String × Json)
  | [] => []
  | (k, j) :: rest => (k, unsignedZeros j) :: unsignedFields rest

end

end Json

end IdlDecls
