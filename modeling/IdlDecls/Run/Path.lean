import IdlDecls.Text.Blank

/-!
# Paths

A path is a text whose names are divided by slashes; one that begins with a slash starts at the root.
`join` continues a path by another, and `components` are the names that a path goes through: two
paths with the same components lead to the same place.
-/

namespace IdlDecls.Path

/-- Whether a path starts at the root. -/
def isAbsolute (path : String) : Bool := path.toList.head? = some '/'

/-- Whether a path ends in a slash. -/
def endsInSlash (path : String) : Bool := path.toList.getLast? = some '/'

/-- A path continued by another. A path from the root replaces what it continues. -/
def join (base path : String) : String :=
  if isAbsolute path then path
  else if base = "" ∨ endsInSlash base then base ++ path
  else base ++ "/" ++ path

/-- The parts of a path between slashes, empty ones too. -/
def parts (path : String) : List String :=
  (Text.pieces (· = '/') path.toList).map String.ofList

/-- Whether a part of a path stays where it is. -/
def isIdle (part : String) : Bool := part = "" || part = "."

/-- The names of a path. Idle parts do not count, but for a dot at the very front. -/
def components (path : String) : List String :=
  match parts path with
  | "." :: rest => "." :: rest.filter (!isIdle ·)
  | all => all.filter (!isIdle ·)

/-- The beginnings of a list that are not empty, the shortest first. -/
def beginnings {α : Type} : List α → List (List α)
  | [] => []
  | a :: rest => [a] :: (beginnings rest).map (a :: ·)

/-- The path of some components. -/
def ofComponents (absolute : Bool) (names : List String) : String :=
  (if absolute then "/" else "") ++ "/".intercalate names

/-- The paths to the places that a path goes through, the path itself last. -/
def stages (path : String) : List String :=
  (beginnings (components path).dropLast).map (ofComponents (isAbsolute path)) ++ [path]

/-! ## Laws -/

theorem join_of_isAbsolute {base path : String} (h : isAbsolute path = true) :
    join base path = path := by
  simp [join, h]

theorem join_empty_left (path : String) : join "" path = path := by
  simp [join]

end IdlDecls.Path
