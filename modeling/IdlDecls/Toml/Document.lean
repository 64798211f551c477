import IdlDecls.Toml.Scalar
import IdlDecls.Toml.Table

/-!
# TOML documents

`Toml.parse?` reads a document as a JSON object. Arrays may spread over lines and hold comments,
inline tables may not; both nest to a limit. Statements stand on lines of their own.
-/

namespace IdlDecls.Toml

/-- How deep values may nest and how many parts a key may have. -/
def levelLimit : Nat := 79

/-- The text behind blanks, comments and line breaks. -/
def afterLayout? : (inComment : Bool) → List Char → Option (List Char)
  | _, [] => some []
  | _, '\n' :: rest => afterLayout? false rest
  | _, '\r' :: '\n' :: rest => afterLayout? false rest
  | true, c :: rest => if isTextChar c then afterLayout? true rest else none
  | false, c :: rest =>
    if isSpace c then afterLayout? false rest
    else if c = '#' then afterLayout? true rest
    else some (c :: rest)

/-- The text behind the end of a line, which blanks and a comment may precede. -/
def afterLine? (text : List Char) : Option (List Char) :=
  let rest := text.dropWhile isSpace
  let rest := if rest.head? = some '#' then rest.dropWhile isTextChar else rest
  if rest.isEmpty then some [] else afterBreak? rest

/-- The path in front of the last part of a key, and the last part. -/
def splitKey? (parts : List String) : Option (List String × String) :=
  parts.getLast?.map fun last => (parts.dropLast, last)

/-! ## Values -/

mutual

/-- A value and what follows it. Each of the readers below is called with less fuel than its caller;
twice the length of the text is enough, as at most one call in two takes no character. -/
def value? : (fuel depth : Nat) → List Char → Option (Json × List Char)
  | 0, _, _ => none
  | fuel + 1, depth, text =>
    match text with
    | '[' :: rest =>
      match depth with
      | 0 => none
      | depth + 1 => (items? fuel depth rest).map fun (items, after) => (.arr items, after)
    | '\x7b' :: rest =>
      match depth with
      | 0 => none
      | depth + 1 =>
        match rest.dropWhile isSpace with
        | '\x7d' :: after => some (.obj [], after)
        | rest => (pairs? fuel depth .fresh rest).map fun (t, after) => (t.toJson, after)
    | _ => scalar? text

/-- The items of an array up to its end and what follows it. -/
def items? : (fuel depth : Nat) → List Char → Option (List Json × List Char)
  | 0, _, _ => none
  | fuel + 1, depth, text => do
    match ← afterLayout? false text with
    | ']' :: after => pure ([], after)
    | text =>
      let (item, rest) ← value? fuel depth text
      match ← afterLayout? false rest with
      | ']' :: after => pure ([item], after)
      | ',' :: rest =>
        let (items, after) ← items? fuel depth rest
        pure (item :: items, after)
      | _ => none

/-- The pairs of an inline table up to its end, put into a table, and what follows it. -/
def pairs? : (fuel depth : Nat) → Table → List Char → Option (Table × List Char)
  | 0, _, _, _ => none
  | fuel + 1, depth, t, text => do
    let (parts, rest) ← dottedKey? levelLimit (text.dropWhile isSpace)
    let (path, key) ← splitKey? parts
    let rest ← after? '=' (rest.dropWhile isSpace)
    let (value, rest) ← value? fuel depth (rest.dropWhile isSpace)
    let t ← t.define path key value
    match rest.dropWhile isSpace with
    | '\x7d' :: after => pure (t, after)
    | ',' :: rest => pairs? fuel depth t rest
    | _ => none

end

/-! ## Statements -/

/-- The table so far, and the path of the heading that it stands under. -/
structure Reader where
  root : Table
  heading : List String

/-- A heading behind its opening bracket, with the table that it opens, and what follows it. -/
def heading? (isItem : Bool) (r : Reader) (text : List Char) : Option (Reader × List Char) := do
  let (parts, rest) ← dottedKey? levelLimit (text.dropWhile isSpace)
  let (path, key) ← splitKey? parts
  let rest ← after? ']' (rest.dropWhile isSpace)
  let rest ← if isItem then after? ']' rest else some rest
  let root ← if isItem then r.root.openItem path key else r.root.openTable path key
  pure (⟨root, parts⟩, rest)

/-- A key with its value, put into the table of the last heading, and what follows it. -/
def pair? (r : Reader) (text : List Char) : Option (Reader × List Char) := do
  let (parts, rest) ← dottedKey? levelLimit text
  let (path, key) ← splitKey? parts
  let rest ← after? '=' (rest.dropWhile isSpace)
  let rest := rest.dropWhile isSpace
  let (value, rest) ← value? (2 * rest.length + 2) levelLimit rest
  let root ← Table.update false (Table.define path key value) r.heading r.root
  pure (⟨root, r.heading⟩, rest)

/-- One statement and what follows it. -/
def statement? (r : Reader) (text : List Char) : Option (Reader × List Char) :=
  match text with
  | '[' :: '[' :: rest => heading? true r rest
  | '[' :: rest => heading? false r rest
  | _ => pair? r text

/-- All statements, of which there are at most as many as `fuel`. -/
def statements? : (fuel : Nat) → Reader → List Char → Option Reader
  | fuel, r, text => do
    match ← afterLayout? false text with
    | [] => pure r
    | text =>
      match fuel with
      | 0 => none
      | fuel + 1 =>
        let (r, rest) ← statement? r text
        statements? fuel r (← afterLine? rest)

/-- The object that a document spells. A byte order mark at the start is skipped. -/
def parse? (text : String) : Option Json :=
  let cs := text.toList
  let cs := if cs.head? = some '\ufeff' then cs.drop 1 else cs
  (statements? cs.length ⟨.fresh, []⟩ cs).map fun r => r.root.toJson

end IdlDecls.Toml
