/-!
# Binary64: between decimals and 64-bit floating point words

A finite word stands for `m * 2 ^ q` (`significand`, `exponent`) with a sign. `nearest` rounds a
decimal to the nearest word, ties to the even one; `stepwise` rounds it once for its digits and once
for its power of ten; `shortest` finds the fewest digits that round back to a word, and of those the
nearest to its value. All work on natural numbers only.
-/

namespace IdlDecls.Binary64

/-! ## Words -/

/-- One more than the greatest fraction of a word: the significand of a normal word has its leading
bit here. -/
def leadingBit : Nat := 0x10000000000000

/-- The sign bit. -/
def signBit : Nat := 0x8000000000000000

/-- Whether the sign bit is set. -/
def negative (word : UInt64) : Bool := signBit ≤ word.toNat

/-- The word without its sign bit. -/
def magnitude (word : UInt64) : Nat := word.toNat % signBit

/-- The factor `m` of the value `m * 2 ^ q`. -/
def significand (word : UInt64) : Nat :=
  let fraction := magnitude word % leadingBit
  if magnitude word < leadingBit then fraction else leadingBit + fraction

/-- The power `q` of the value `m * 2 ^ q`. -/
def exponent (word : UInt64) : Int :=
  if magnitude word < leadingBit then -1074 else (magnitude word / leadingBit : Nat) - 1075

/-! ## From decimals -/

/-- A quotient rounded to the nearest whole number, a half to the even one. -/
def roundDiv (num den : Nat) : Nat :=
  let q := num / den
  let r := num % den
  if den < 2 * r ∨ (2 * r = den ∧ q % 2 = 1) then q + 1 else q

/-- The magnitude of the word nearest to a positive quotient, unbounded above. The two summands are
the exponent field and the significand; a significand that rounds up to the next power of two
carries into the exponent field by itself. -/
def nearestMagnitude (num den : Nat) : Nat :=
  let guess : Int := Nat.log2 num - Nat.log2 den - 52
  let scaled (e : Int) : Nat × Nat := (num * Nat.pow 2 (-e).toNat, den * Nat.pow 2 e.toNat)
  let fits := leadingBit * (scaled guess).2 ≤ (scaled guess).1
  let e := max (-1074) (if fits then guess else guess - 1)
  (e + 1074).toNat * leadingBit + roundDiv (scaled e).1 (scaled e).2

/-- The word of a sign and a magnitude, or `none` beyond the largest finite word. -/
def ofMagnitude? (isNegative : Bool) (magnitude : Nat) : Option UInt64 :=
  let sign := if isNegative then signBit else 0
  if magnitude < 2047 * leadingBit then some (UInt64.ofNat (sign + magnitude)) else none

/-- The word nearest to `digits * 10 ^ power`, or `none` beyond the largest finite word. Powers far
out of range are decided by the number of digits alone. -/
def nearest (isNegative : Bool) (digits : Nat) (power : Int) : Option UInt64 :=
  let order : Int := (Nat.toDigits 10 digits).length + power
  if digits = 0 ∨ order < -400 then ofMagnitude? isNegative 0
  else if 400 < order then none
  else
    ofMagnitude? isNegative
      (nearestMagnitude (digits * Nat.pow 10 power.toNat) (Nat.pow 10 (-power).toNat))

/-- A word without a sign, multiplied by the word nearest to a power of ten, or divided by it where
the power is negative. The result is rounded once. -/
def scale? (word : UInt64) (power : Int) : Option UInt64 := do
  let factor ← nearest false 1 power.natAbs
  let m := significand word
  if m = 0 then pure word
  else
    let (num, den, q) :=
      if 0 ≤ power then (m * significand factor, 1, exponent word + exponent factor)
      else (m, significand factor, exponent word - exponent factor)
    ofMagnitude? false (nearestMagnitude (num * Nat.pow 2 q.toNat) (den * Nat.pow 2 (-q).toNat))

/-- The greatest power of ten among the words. -/
def powerLimit : Int := 308

/-- A decimal that is rounded in steps: the digits to the nearest word, which is then scaled by a power
of ten, a far negative one in two parts. Two parts leave nothing of digits that fit 64 bits. `none`
beyond the largest finite word. -/
def stepwise (isNegative : Bool) (digits : Nat) (power : Int) : Option UInt64 := do
  let start ← nearest false digits 0
  let word ←
    if magnitude start = 0 ∨ power < -2 * powerLimit then pure 0
    else if powerLimit < power then none
    else if power < -powerLimit then
      (scale? start (-powerLimit)).bind (scale? · (power + powerLimit))
    else scale? start power
  ofMagnitude? isNegative (magnitude word)

/-! ## To decimals -/

/-- The digits and the power of ten of a decimal. -/
structure Decimal where
  digits : Nat
  power : Int
deriving DecidableEq, Repr

/-- A decimal without the zeros at the end of its digits, at most as many as `fuel`. -/
def Decimal.strip : Nat → Decimal → Decimal
  | 0, d => d
  | fuel + 1, d => if d.digits % 10 = 0 then strip fuel ⟨d.digits / 10, d.power + 1⟩ else d

/-- The decimal with `count` digits, if any, that rounds to a word of non-zero magnitude; of two the
nearer, of two equally near the even one. All quantities are quarters of the word's last place, so
that the ends of the interval that rounds to the word are whole. -/
def shortestWith (word : UInt64) (order : Int) (count : Nat) : Option Decimal :=
  let m := significand word
  let q := exponent word - 2
  let power := order - count
  let unit := Nat.pow 10 power.toNat * Nat.pow 2 (-q).toNat
  let scale := Nat.pow 2 q.toNat * Nat.pow 10 (-power).toNat
  let low := 4 * m - (if m = leadingBit ∧ exponent word ≠ -1074 then 1 else 2)
  let high := 4 * m + 2
  let inside (d : Nat) : Bool :=
    if m % 2 = 0 then low * scale ≤ d * unit ∧ d * unit ≤ high * scale
    else low * scale < d * unit ∧ d * unit < high * scale
  let below := 4 * m * scale / unit
  let above := below + 1
  let gapBelow := 4 * m * scale - below * unit
  let gapAbove := above * unit - 4 * m * scale
  if inside below && (!inside above || gapBelow < gapAbove ||
      (gapBelow = gapAbove && below % 2 = 0)) then some ⟨below, power⟩
  else if inside above then some ⟨above, power⟩
  else none

/-- The number of digits before the decimal point, negative for leading zeros after it: the least
`p` with the word's value below `10 ^ p`. -/
def order (word : UInt64) : Int :=
  let m := significand word
  let q := exponent word
  let below (p : Int) : Bool :=
    m * Nat.pow 2 q.toNat * Nat.pow 10 (-p).toNat < Nat.pow 10 p.toNat * Nat.pow 2 (-q).toNat
  match (List.range 640).find? fun (i : Nat) => below ((i : Int) - 325) with
  | some i => (i : Int) - 325
  | none => 315

/-- The shortest decimal that rounds to a finite word; seventeen digits always do. -/
def shortest (word : UInt64) : Decimal :=
  if magnitude word = 0 then ⟨0, 0⟩
  else
    match (List.range 17).findSome? fun i => shortestWith word (order word) (i + 1) with
    | some d => d.strip 20
    | none => ⟨significand word, exponent word⟩

end IdlDecls.Binary64
