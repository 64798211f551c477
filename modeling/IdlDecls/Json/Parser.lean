import IdlDecls.Json.Spelling

/-!
# Parsing JSON

The tokens of a text drive a machine that holds the arrays and objects still open, the innermost
first. `Json.spelling?` gives the tree of the text, with the fields of objects in the order of the
text and repeated keys kept; `Json.ofText?` gives its value in the same order, and `Json.parse?` the
canonical value. A value that nests deeper than a limit is refused.
-/

namespace IdlDecls.Json

/-- An array or object that is still open, with what it holds so far, the last part first. -/
inductive Frame where
  /-- An array. -/
  | items (done : List Spelling)
  /-- An object between two fields. -/
  | fields (done : List (Option String × Spelling))
  /-- An object that waits for the value of a key. -/
  | member (done : List (Option String × Spelling)) (key : Option String)

/-- What may come next. -/
inductive Expected where
  /-- A value. -/
  | value
  /-- A value or the end of an array that has just been opened. -/
  | valueOrEnd
  /-- A key. -/
  | key
  /-- A key or the end of an object that has just been opened. -/
  | keyOrEnd
  /-- The colon behind a key. -/
  | colon
  /-- A comma, or the end of the innermost array or object. -/
  | separator
  /-- Nothing: the tree is complete. -/
  | finished (result : Spelling)

/-- The open arrays and objects, the innermost first, and what may come next. -/
structure Progress where
  stack : List Frame
  expected : Expected

/-- Hands a complete tree to the innermost open array or object. -/
def Progress.deliver (tree : Spelling) : List Frame → Option Progress
  | [] => some ⟨[], .finished tree⟩
  | .items done :: stack => some ⟨.items (tree :: done) :: stack, .separator⟩
  | .member done key :: stack => some ⟨.fields ((key, tree) :: done) :: stack, .separator⟩
  | .fields _ :: _ => none

/-- Takes a token where a value is expected. -/
def Progress.takeValue (stack : List Frame) : Token → Option Progress
  | .openObject => some ⟨.fields [] :: stack, .keyOrEnd⟩
  | .openArray => some ⟨.items [] :: stack, .valueOrEnd⟩
  | .null => deliver .null stack
  | .bool b => deliver (.bool b) stack
  | .num n => deliver (.num n) stack
  | .str s => deliver (.str s) stack
  | _ => none

/-- Takes one token. -/
def Progress.step (p : Progress) (token : Token) : Option Progress :=
  match p.expected, p.stack, token with
  | .valueOrEnd, .items done :: stack, .closeArray => deliver (.arr done.reverse) stack
  | .value, stack, token => takeValue stack token
  | .valueOrEnd, stack, token => takeValue stack token
  | .keyOrEnd, .fields done :: stack, .closeObject => deliver (.obj done.reverse) stack
  | .keyOrEnd, .fields done :: stack, .str key => some ⟨.member done key :: stack, .colon⟩
  | .key, .fields done :: stack, .str key => some ⟨.member done key :: stack, .colon⟩
  | .colon, stack, .colon => some ⟨stack, .value⟩
  | .separator, .items done :: stack, .comma => some ⟨.items done :: stack, .value⟩
  | .separator, .items done :: stack, .closeArray => deliver (.arr done.reverse) stack
  | .separator, .fields done :: stack, .comma => some ⟨.fields done :: stack, .key⟩
  | .separator, .fields done :: stack, .closeObject => deliver (.obj done.reverse) stack
  | _, _, _ => none

/-- The tree that a text spells, if it follows the grammar. -/
def spelling? (text : String) : Option Spelling := do
  let found ← (← tokens text.toList).foldlM Progress.step ⟨[], .value⟩
  match found.expected with
  | .finished result => some result
  | _ => none

/-- The value that a text spells, if it has at most `limit` levels of arrays and objects. -/
def ofText? (limit : Nat) (text : String) : Option Json :=
  (spelling? text).bind (Spelling.value? limit)

/-- The levels of arrays and objects that a data file may have. -/
def depthLimit : Nat := 127

/-- The value of a data file. -/
def parse? (text : String) : Option Json :=
  (ofText? depthLimit text).map canonical

end IdlDecls.Json
