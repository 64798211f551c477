import IdlDecls.Json.Token

/-!
# TOML scalars and keys

Strings in their four forms, whole numbers with bases and underscores, floats, dates and times, and
keys. A scalar becomes a JSON value: a date or time becomes an object that holds its text, and a float
without a finite value becomes null.
-/

namespace IdlDecls.Toml

/-! ## Characters -/

/-- A blank inside a line. -/
def isSpace (c : Char) : Bool := c = ' ' || c = '\t'

/-- A character of a comment or a string: no control character but the tab. -/
def isTextChar (c : Char) : Bool := c = '\t' || (32 ≤ c.toNat && c.toNat ≠ 127)

/-- A character of a key without quotes. -/
def isBareChar (c : Char) : Bool := c.isAlphanum || c = '_' || c = '-'

/-- A line break with what follows it. -/
def afterBreak? : List Char → Option (List Char)
  | '\n' :: rest => some rest
  | '\r' :: '\n' :: rest => some rest
  | _ => none

/-! ## Strings -/

/-- The character with a code, if there is one. -/
def charOf? (code : Nat) : Option Char :=
  if code < 0xD800 ∨ (0xE000 ≤ code ∧ code < 0x110000) then some (Char.ofNat code) else none

/-- The character that a backslash and one more character stand for. -/
def simpleEscape? : Char → Option Char
  | 'b' => some '\x08'
  | 't' => some '\t'
  | 'n' => some '\n'
  | 'f' => some '\x0c'
  | 'r' => some '\r'
  | '"' => some '"'
  | '\\' => some '\\'
  | _ => none

/-- The character that an escape without its backslash stands for, and what follows it. -/
def escape? : List Char → Option (Char × List Char)
  | 'u' :: a :: b :: c :: d :: rest => do
    pure (← charOf? (← Json.hexNumber? [a, b, c, d]), rest)
  | 'U' :: a :: b :: c :: d :: e :: f :: g :: h :: rest => do
    pure (← charOf? (← Json.hexNumber? [a, b, c, d, e, f, g, h]), rest)
  | c :: rest => (simpleEscape? c).map (·, rest)
  | [] => none

/-- A string between single marks from behind its opening mark, with escapes or without, and what
follows it. Every step takes a character, so the length of the text bounds their number. -/
def lineString? (mark : Char) (escapes : Bool) : Nat → List Char → Option (List Char × List Char)
  | 0, _ => none
  | _ + 1, [] => none
  | fuel + 1, c :: rest =>
    if c = mark then some ([], rest)
    else if escapes ∧ c = '\\' then do
      let (e, rest) ← escape? rest
      let (cs, after) ← lineString? mark escapes fuel rest
      pure (e :: cs, after)
    else if isTextChar c then do
      let (cs, after) ← lineString? mark escapes fuel rest
      pure (c :: cs, after)
    else none

/-- A text without the blanks and line breaks at its front. -/
def dropBlankLines : List Char → List Char
  | '\n' :: rest => dropBlankLines rest
  | '\r' :: '\n' :: rest => dropBlankLines rest
  | c :: rest => if isSpace c then dropBlankLines rest else c :: rest
  | [] => []

/-- The text behind a backslash at the end of a line: line breaks and blanks are skipped. -/
def afterContinuation? (text : List Char) : Option (List Char) :=
  (afterBreak? (text.dropWhile isSpace)).map dropBlankLines

/-- A string between triple marks from behind its opening marks and what follows it. Up to two marks
right before the closing ones belong to the string, and every line break is a line feed. -/
def blockString? (mark : Char) (escapes : Bool) : Nat → List Char → Option (List Char × List Char)
  | 0, _ => none
  | _ + 1, [] => none
  | fuel + 1, c :: rest =>
    if [mark, mark, mark].isPrefixOf (c :: rest) then
      let extra := ((rest.drop 2).take 2).takeWhile (· = mark)
      some (extra, (rest.drop 2).drop extra.length)
    else if escapes ∧ c = '\\' then
      match afterContinuation? rest with
      | some rest => blockString? mark escapes fuel rest
      | none => do
        let (e, rest) ← escape? rest
        let (cs, after) ← blockString? mark escapes fuel rest
        pure (e :: cs, after)
    else
      match afterBreak? (c :: rest) with
      | some rest => do
        let (cs, after) ← blockString? mark escapes fuel rest
        pure ('\n' :: cs, after)
      | none =>
        if isTextChar c then do
          let (cs, after) ← blockString? mark escapes fuel rest
          pure (c :: cs, after)
        else none

/-- A string of any form and what follows it; a line break right behind triple marks is dropped. -/
def string? (text : List Char) : Option (String × List Char) := do
  let mark ← text.head?
  let escapes := mark = '"'
  if mark ≠ '"' ∧ mark ≠ '\'' then none
  else if [mark, mark, mark].isPrefixOf text then
    let body := text.drop 3
    let body := (afterBreak? body).getD body
    let (cs, after) ← blockString? mark escapes (body.length + 1) body
    pure (String.ofList cs, after)
  else
    let (cs, after) ← lineString? mark escapes text.length (text.drop 1)
    pure (String.ofList cs, after)

/-! ## Numbers -/

/-- Digits with single underscores between them, without the underscores. -/
def plainDigits? (isDigit : Char → Bool) : List Char → Option (List Char)
  | [] => none
  | [c] => if isDigit c then some [c] else none
  | c :: '_' :: rest =>
    if isDigit c then (plainDigits? isDigit rest).map (c :: ·) else none
  | c :: rest => if isDigit c then (plainDigits? isDigit rest).map (c :: ·) else none

/-- The value of a digit in any base up to sixteen. -/
def isDigitOf (base : Nat) (c : Char) : Bool :=
  match Json.hexValue? c with
  | some value => value < base
  | none => false

/-- The number that digits spell in a base. -/
def digitsIn (base : Nat) (digits : List Char) : Nat :=
  digits.foldl (fun n c => base * n + (Json.hexValue? c).getD 0) 0

/-- A whole number of the signed 64-bit range. -/
def signed64? (value : Int) : Option Json :=
  if Number.isSigned value then some (.num (.int value)) else none

/-- Decimal digits without a leading zero. -/
def decimalDigits? (text : List Char) : Option (List Char) := do
  let digits ← plainDigits? Char.isDigit text
  if digits.head? = some '0' ∧ 1 < digits.length then none else pure digits

/-- A sign, if there is one, and what follows it. -/
def sign (text : List Char) : Bool × List Char :=
  match text with
  | '-' :: rest => (true, rest)
  | '+' :: rest => (false, rest)
  | _ => (false, text)

/-- A whole number. -/
def integer? (text : List Char) : Option Json :=
  match text with
  | '0' :: 'x' :: rest => (plainDigits? (isDigitOf 16) rest).bind fun ds => signed64? (digitsIn 16 ds)
  | '0' :: 'o' :: rest => (plainDigits? (isDigitOf 8) rest).bind fun ds => signed64? (digitsIn 8 ds)
  | '0' :: 'b' :: rest => (plainDigits? (isDigitOf 2) rest).bind fun ds => signed64? (digitsIn 2 ds)
  | _ =>
    let (isNegative, unsigned) := sign text
    (decimalDigits? unsigned).bind fun digits =>
      let value : Int := digitsIn 10 digits
      signed64? (if isNegative then -value else value)

/-- The exponent behind its letter. -/
def exponent? (text : List Char) : Option Int :=
  let (isNegative, unsigned) := sign text
  (plainDigits? Char.isDigit unsigned).map fun digits =>
    let value : Int := digitsIn 10 digits
    if isNegative then -value else value

/-- A float; infinity and the undefined number are null. Below the least float stands infinity, above
the greatest nothing. -/
def float? (text : List Char) : Option Json := do
  let (isNegative, unsigned) := sign text
  if unsigned = "inf".toList ∨ unsigned = "nan".toList then pure .null
  else
    let isE (c : Char) : Bool := c = 'e' || c = 'E'
    let mantissa := unsigned.takeWhile (!isE ·)
    let exponentText := unsigned.dropWhile (!isE ·)
    let whole ← decimalDigits? (mantissa.takeWhile (· ≠ '.'))
    let fraction ← match mantissa.dropWhile (· ≠ '.') with
      | [] => if exponentText.isEmpty then none else some []
      | _ :: digits => plainDigits? Char.isDigit digits
    let exponent ← match exponentText with
      | [] => some 0
      | _ :: digits => exponent? digits
    match Binary64.nearest isNegative (digitsIn 10 (whole ++ fraction))
      (exponent - fraction.length) with
    | some word => pure (.num (.float word))
    | none => if isNegative then pure .null else none

/-! ## Dates and times -/

/-- A number of exactly `count` digits in front of a text, and what follows it. -/
def fixedNumber? (count : Nat) (text : List Char) : Option (Nat × List Char) :=
  let digits := text.take count
  if digits.length = count ∧ digits.all Char.isDigit then some (digitsIn 10 digits, text.drop count)
  else none

/-- Strips one character from the front of a text. -/
def after? (c : Char) : List Char → Option (List Char)
  | d :: rest => if d = c then some rest else none
  | [] => none

/-- The number of days of a month. -/
def daysIn (year month : Nat) : Nat :=
  if month = 2 then
    if year % 4 = 0 ∧ (year % 100 ≠ 0 ∨ year % 400 = 0) then 29 else 28
  else if [4, 6, 9, 11].contains month then 30
  else 31

/-- What follows a date in front of a text. -/
def afterDate? (text : List Char) : Option (List Char) := do
  let (year, rest) ← fixedNumber? 4 text
  let (month, rest) ← fixedNumber? 2 (← after? '-' rest)
  let (day, rest) ← fixedNumber? 2 (← after? '-' rest)
  if 1 ≤ month ∧ month ≤ 12 ∧ 1 ≤ day ∧ day ≤ daysIn year month then pure rest else none

/-- What follows a time in front of a text. -/
def afterTime? (text : List Char) : Option (List Char) := do
  let (hour, rest) ← fixedNumber? 2 text
  let (minute, rest) ← fixedNumber? 2 (← after? ':' rest)
  let (second, rest) ← fixedNumber? 2 (← after? ':' rest)
  if 23 < hour ∨ 59 < minute ∨ 60 < second then none
  else
    match rest with
    | '.' :: digits =>
      if (digits.takeWhile Char.isDigit).isEmpty then none
      else pure (digits.dropWhile Char.isDigit)
    | _ => pure rest

/-- Whether a text is the offset of a time, or empty. -/
def isOffset (text : List Char) : Bool :=
  match text with
  | [] => true
  | ['Z'] => true
  | ['z'] => true
  | c :: rest =>
    (c = '+' || c = '-') &&
      ((do
        let (hour, rest) ← fixedNumber? 2 rest
        let (minute, rest) ← fixedNumber? 2 (← after? ':' rest)
        pure (hour ≤ 23 && minute ≤ 59 && rest.isEmpty)).getD false)

/-- Whether a text is a date, a time, or a date and a time. -/
def isDateTime (text : List Char) : Bool :=
  match afterDate? text with
  | some [] => true
  | some (c :: rest) =>
    (c = 'T' || c = 't' || c = ' ') && ((afterTime? rest).map isOffset).getD false
  | none => ((afterTime? text).map (·.isEmpty)).getD false

/-! ## Scalars -/

/-- A character of a scalar without quotes. -/
def isScalarChar (c : Char) : Bool :=
  c.isAlphanum || c = '_' || c = '+' || c = '-' || c = '.' || c = ':'

/-- The text of a scalar without quotes and what follows it; a space may stand between a date and a
time. -/
def scalarText (text : List Char) : List Char × List Char :=
  let first := text.takeWhile isScalarChar
  let rest := text.dropWhile isScalarChar
  match rest with
  | ' ' :: d :: _ =>
    if afterDate? first = some [] ∧ d.isDigit then
      (first ++ ' ' :: (rest.drop 1).takeWhile isScalarChar, (rest.drop 1).dropWhile isScalarChar)
    else (first, rest)
  | _ => (first, rest)

/-- The value of a scalar without quotes. -/
def scalarValue? (text : List Char) : Option Json :=
  if text = "true".toList then some (.bool true)
  else if text = "false".toList then some (.bool false)
  else if isDateTime text then some (.obj [("date-time", .str (String.ofList text))])
  else (integer? text).or (float? text)

/-- A scalar and what follows it. -/
def scalar? (text : List Char) : Option (Json × List Char) :=
  match string? text with
  | some (s, rest) => some (.str s, rest)
  | none =>
    let (word, rest) := scalarText text
    (scalarValue? word).map (·, rest)

/-! ## Keys -/

/-- One part of a key and what follows it. -/
def simpleKey? (text : List Char) : Option (String × List Char) :=
  match text with
  | '"' :: rest =>
    (lineString? '"' true text.length rest).map fun (cs, after) => (String.ofList cs, after)
  | '\'' :: rest =>
    (lineString? '\'' false text.length rest).map fun (cs, after) => (String.ofList cs, after)
  | _ =>
    let bare := text.takeWhile isBareChar
    if bare.isEmpty then none else some (String.ofList bare, text.dropWhile isBareChar)

/-- The parts of a key between dots and what follows the key, for keys with at most `limit` parts. -/
def dottedKey? : (limit : Nat) → List Char → Option (List String × List Char)
  | 0, _ => none
  | limit + 1, text => do
    let (part, rest) ← simpleKey? text
    match rest.dropWhile isSpace with
    | '.' :: rest =>
      let (parts, rest) ← dottedKey? limit (rest.dropWhile isSpace)
      pure (part :: parts, rest)
    | rest => pure ([part], rest)

end IdlDecls.Toml
