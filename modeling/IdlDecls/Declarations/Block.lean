import IdlDecls.Text.Blank

/-!
# Declarations as blocks

A declaration file is a banner and a list of declarations. A block has documentation, a heading,
items and a closing; an item has documentation and any number of lines, one for each overload. An
alias is a single line. Each line of a comment becomes a documentation line of its own.
-/

namespace IdlDecls

/-- What stands in a block: documentation, and lines without indentation and semicolon. -/
structure Item where
  doc : List String := []
  lines : List String
deriving DecidableEq, Repr

/-- A declaration. -/
inductive Declaration where
  /-- A heading with items between braces. -/
  | block (doc : List String) (heading : String) (items : List Item) (closing : String)
  /-- A name for a type. -/
  | typeAlias (name body : String)
deriving DecidableEq, Repr

namespace Declaration

/-- The indentation of the items of a block (`INDENT`). -/
def indentation : String := "    "

/-- A documentation line. -/
def docLine (indent text : String) : String :=
  indent ++ "/** " ++ text ++ " */\n"

/-- Several documentation lines. -/
def docText (indent : String) (doc : List String) : String :=
  String.join (doc.map (docLine indent))

/-- An item in its block. -/
def itemText (item : Item) : String :=
  docText indentation item.doc ++
    String.join (item.lines.map fun line => indentation ++ line ++ ";\n")

/-- A declaration as it stands in a file. A blank line follows a block. -/
def text : Declaration → String
  | .block doc heading items closing =>
    docText "" doc ++ heading ++ " \x7b\n" ++ String.join (items.map itemText) ++ closing ++ "\n\n"
  | .typeAlias name body => "type " ++ name ++ " = " ++ body ++ ";\n"

/-- The documentation of a comment and a deprecation mark: a line for each line of the comment,
trimmed, unless the comment is blank, and a last line for the mark (`emit_doc`). -/
def docOf (comment : Option String) (deprecated : Bool) : List String :=
  (match comment with
    | none => []
    | some comment =>
      if Text.blank comment then [] else (Text.lines comment).map Text.trim) ++
  (if deprecated then ["@deprecated"] else [])

end Declaration

end IdlDecls
