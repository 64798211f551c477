import IdlDecls.Json.Basic
import IdlDecls.Decimal.Binary64

/-!
# Tokens of JSON text

`Json.tokens` cuts a text into brackets, separators, strings, numbers and the three literals; blanks
between tokens are space, tab, line feed and carriage return only. Strings hold no raw control
character, numbers have no leading zeros, and a number outside the 64-bit whole numbers becomes a
float. A token may be well formed and have no value: a string with half of a surrogate pair, a number
beyond the largest float.
-/

namespace IdlDecls.Json

/-- A token of JSON text. -/
inductive Token where
  | openObject
  | closeObject
  | openArray
  | closeArray
  | colon
  | comma
  | null
  | bool (value : Bool)
  /-- A number, if it is in range. -/
  | num (value : Option Number)
  /-- A string, if it spells a text. -/
  | str (value : Option String)
deriving DecidableEq, Repr

/-! ## Strings -/

/-- The value of a hexadecimal digit. -/
def hexValue? (c : Char) : Option Nat :=
  if '0' ≤ c ∧ c ≤ '9' then some (c.toNat - 48)
  else if 'a' ≤ c ∧ c ≤ 'f' then some (c.toNat - 87)
  else if 'A' ≤ c ∧ c ≤ 'F' then some (c.toNat - 55)
  else none

/-- The number that hexadecimal digits spell. -/
def hexNumber? (digits : List Char) : Option Nat :=
  digits.foldlM (fun n c => (hexValue? c).map (16 * n + ·)) 0

/-- The character that a backslash and one more character stand for. -/
def simpleEscape? : Char → Option Char
  | '"' => some '"'
  | '\\' => some '\\'
  | '/' => some '/'
  | 'b' => some '\x08'
  | 'f' => some '\x0c'
  | 'n' => some '\n'
  | 'r' => some '\r'
  | 't' => some '\t'
  | _ => none

/-- A part of a string: a character, or a UTF-16 unit that is escaped by its number. -/
inductive Part where
  | char (c : Char)
  | unit (value : Nat)
deriving DecidableEq, Repr

/-- A string from behind its opening quote: the parts in front of the closing quote and what follows
it. -/
def string? : List Char → Option (List Part × List Char)
  | [] => none
  | '"' :: rest => some ([], rest)
  | '\\' :: 'u' :: a :: b :: c :: d :: rest =>
    match hexNumber? [a, b, c, d] with
    | none => none
    | some unit => (string? rest).map fun (parts, after) => (.unit unit :: parts, after)
  | '\\' :: c :: rest =>
    match simpleEscape? c with
    | none => none
    | some e => (string? rest).map fun (parts, after) => (.char e :: parts, after)
  | c :: rest =>
    if c.toNat < 32 ∨ c = '\\' then none
    else (string? rest).map fun (parts, after) => (.char c :: parts, after)

/-- Whether a unit is the first of a surrogate pair. -/
def isHighSurrogate (unit : Nat) : Bool := 0xD800 ≤ unit && unit ≤ 0xDBFF

/-- Whether a unit is the second of a surrogate pair. -/
def isLowSurrogate (unit : Nat) : Bool := 0xDC00 ≤ unit && unit ≤ 0xDFFF

/-- The character of a surrogate pair. -/
def surrogatePair (high low : Nat) : Char :=
  Char.ofNat (0x10000 + (high - 0xD800) * 0x400 + (low - 0xDC00))

/-- The characters that parts spell, unless a surrogate stands alone. -/
def characters? : List Part → Option (List Char)
  | [] => some []
  | .char c :: rest => (characters? rest).map (c :: ·)
  | .unit unit :: rest =>
    if isHighSurrogate unit then
      match rest with
      | .unit low :: rest =>
        if isLowSurrogate low then (characters? rest).map (surrogatePair unit low :: ·) else none
      | _ => none
    else if isLowSurrogate unit then none
    else (characters? rest).map (Char.ofNat unit :: ·)

/-! ## Numbers -/

/-- The number that decimal digits spell. -/
def digitsValue (digits : List Char) : Nat :=
  digits.foldl (fun n c => 10 * n + (c.toNat - 48)) 0

/-- The fraction digits and what follows them; no digits where there is no point. -/
def fraction? : List Char → Option (List Char × List Char)
  | '.' :: rest =>
    let digits := rest.takeWhile Char.isDigit
    if digits.isEmpty then none else some (digits, rest.dropWhile Char.isDigit)
  | rest => some ([], rest)

/-- The exponent, if there is one, and what follows it. -/
def exponent? (text : List Char) : Option (Option Int × List Char) :=
  match text with
  | e :: rest =>
    if e = 'e' ∨ e = 'E' then
      let isNegative := rest.head? = some '-'
      let unsigned := if isNegative ∨ rest.head? = some '+' then rest.drop 1 else rest
      let digits := unsigned.takeWhile Char.isDigit
      if digits.isEmpty then none
      else
        let value : Int := digitsValue digits
        some (some (if isNegative then -value else value), unsigned.dropWhile Char.isDigit)
    else some (none, text)
  | [] => some (none, [])

/-- Appends decimal digits to a number as long as it stays in the unsigned 64-bit range: the number and
the digits that are left. -/
def appendDigits (number : Nat) : List Char → Nat × List Char
  | [] => (number, [])
  | c :: rest =>
    let next := 10 * number + (c.toNat - 48)
    if next < Number.unsignedLimit then appendDigits next rest else (number, c :: rest)

/-- A float by its digits and its exponent. Digits that do not fit 64 bits only count for the power of
ten. -/
def float? (isNegative : Bool) (whole fraction : List Char) (exponent : Int) : Option Number :=
  let (digits, wholeLeft) := appendDigits 0 whole
  let (digits, fractionLeft) := appendDigits digits fraction
  let power : Int := wholeLeft.length + fractionLeft.length - fraction.length + exponent
  (Binary64.stepwise isNegative digits power).map .float

/-- A number without fraction and exponent. Zero with a minus sign is the negative float zero. -/
def wholeNumber? (isNegative : Bool) (whole : List Char) : Option Number :=
  let value := digitsValue whole
  if isNegative ∧ value ≠ 0 ∧ value ≤ Number.signedLimit then some (.int (-value))
  else if !isNegative ∧ value < Number.unsignedLimit then some (.int value)
  else float? isNegative whole [] 0

/-- A number from behind its minus sign, if it is in range, and what follows it. -/
def unsignedNumber? (isNegative : Bool) (text : List Char) :
    Option (Option Number × List Char) := do
  let whole := text.takeWhile Char.isDigit
  if whole.isEmpty ∨ (whole.head? = some '0' ∧ 1 < whole.length) then none
  else
    let (fraction, rest) ← fraction? (text.dropWhile Char.isDigit)
    let (exponent, rest) ← exponent? rest
    let number :=
      if fraction.isEmpty ∧ exponent.isNone then wholeNumber? isNegative whole
      else float? isNegative whole fraction (exponent.getD 0)
    pure (number, rest)

/-! ## Tokens -/

/-- Strips a word from the front of a text. -/
def afterWord? (word : String) (text : List Char) : Option (List Char) :=
  if word.toList.isPrefixOf text then some (text.drop word.length) else none

/-- The first token of a text that does not start with a blank, and what follows it. -/
def token? (text : List Char) : Option (Token × List Char) :=
  match text with
  | [] => none
  | '\x7b' :: rest => some (.openObject, rest)
  | '\x7d' :: rest => some (.closeObject, rest)
  | '[' :: rest => some (.openArray, rest)
  | ']' :: rest => some (.closeArray, rest)
  | ':' :: rest => some (.colon, rest)
  | ',' :: rest => some (.comma, rest)
  | '"' :: rest => (string? rest).map fun (parts, after) =>
    (.str ((characters? parts).map String.ofList), after)
  | 'n' :: rest => (afterWord? "ull" rest).map fun after => (.null, after)
  | 't' :: rest => (afterWord? "rue" rest).map fun after => (.bool true, after)
  | 'f' :: rest => (afterWord? "alse" rest).map fun after => (.bool false, after)
  | '-' :: rest => (unsignedNumber? true rest).map fun (n, after) => (.num n, after)
  | text => (unsignedNumber? false text).map fun (n, after) => (.num n, after)

/-- A blank between tokens. -/
def isSpace (c : Char) : Bool :=
  c = ' ' || c = '\n' || c = '\t' || c = '\r'

/-- The tokens of a text of at most `fuel` characters. -/
def tokensUpTo : Nat → List Char → Option (List Token)
  | fuel, text =>
    match text.dropWhile isSpace with
    | [] => some []
    | text =>
      match fuel with
      | 0 => none
      | fuel + 1 => do
        let (token, rest) ← token? text
        let others ← tokensUpTo fuel rest
        pure (token :: others)

/-- The tokens of a text, if it consists of tokens. A token takes at least one character, so the
length of the text bounds their number. -/
def tokens (text : List Char) : Option (List Token) :=
  tokensUpTo text.length text

end IdlDecls.Json
