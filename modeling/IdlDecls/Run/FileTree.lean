import IdlDecls.Keyed.Basic
import IdlDecls.Run.Storage

/-!
# File trees

A working directory as a value: its files by path and the directories in it. A path is followed part
by part and every part but the last must be a directory that is there. The directories above the
working directory are there and hold nothing else; a path from the root leads nowhere.
`FileTree.files` looks at a tree and `FileTree.storage` changes it.
-/

namespace IdlDecls

/-- The content of a working directory. A place is the list of names that lead there, behind two dots
for every directory above the working directory that it is in. -/
structure FileTree where
  /-- The texts of the files, under the paths of their places. -/
  texts : Keyed String := ∅
  /-- The places of the directories. -/
  directories : List (List String) := []
deriving DecidableEq

namespace FileTree

/-- The path of a place. -/
def pathOf (place : List String) : String := "/".intercalate place

/-- The text of the file at a place. -/
def textAt? (t : FileTree) (place : List String) : Option String := t.texts.get? (pathOf place)

/-- Whether a place is the working directory or one above it. -/
def isAbove (place : List String) : Bool := place.all (· = "..")

/-- Whether there is a directory at a place. -/
def hasDirectory (t : FileTree) (place : List String) : Bool :=
  isAbove place || t.directories.contains place

/-- Whether a text can name a file or directory: at most 255 bytes, no null character. -/
def isName (part : String) : Bool :=
  part ≠ "" && part ≠ "." && part ≠ ".." && part.utf8ByteSize ≤ 255 && !part.toList.contains '\x00'

/-! ## Following paths -/

/-- The place that parts lead to from a directory, through directories only. -/
def follow? (t : FileTree) : List String → (place : List String) → Option (List String)
  | [], place => some place
  | part :: rest, place =>
    if Path.isIdle part then t.follow? rest place
    else if part = ".." then
      t.follow? rest (if isAbove place then place ++ [part] else place.dropLast)
    else if t.hasDirectory (place ++ [part]) then t.follow? rest (place ++ [part])
    else none

/-- The place of the directory that a path leads to. -/
def directory? (t : FileTree) (path : String) : Option (List String) :=
  if path = "" ∨ Path.isAbsolute path then none else t.follow? (Path.parts path) []

/-- The place that parts lead to, which is inside a directory that is there. -/
def target? (t : FileTree) (parts : List String) : Option (List String) :=
  match parts.getLast? with
  | none => none
  | some name =>
    if isName name then (t.follow? parts.dropLast []).map (· ++ [name]) else none

/-- The place of the file that a path leads to, whether or not it is there. -/
def file? (t : FileTree) (path : String) : Option (List String) :=
  if Path.isAbsolute path then none else t.target? (Path.parts path)

/-- The place of the directory to be made at a path; slashes may stand at its end. -/
def newDirectory? (t : FileTree) (path : String) : Option (List String) :=
  if Path.isAbsolute path then none
  else t.target? ((Path.parts path).reverse.dropWhile (· = "")).reverse

/-! ## Looking and changing -/

/-- The text of the file at a path. -/
def read? (t : FileTree) (path : String) : Option String := (t.file? path).bind t.textAt?

/-- A tree with a text at a place. -/
def put (t : FileTree) (place : List String) (text : String) : FileTree :=
  { t with texts := t.texts.insert (pathOf place) text }

/-- A tree with a directory at a place. -/
def putDirectory (t : FileTree) (place : List String) : FileTree :=
  { t with directories := t.directories ++ [place] }

/-- The tree with a new directory at a path. -/
def makeDirectory? (t : FileTree) (path : String) : Option FileTree :=
  (t.newDirectory? path).bind fun place =>
    if t.hasDirectory place || (t.textAt? place).isSome then none else some (t.putDirectory place)

/-- The tree with a text written to the file at a path. -/
def write? (t : FileTree) (path text : String) : Option FileTree :=
  (t.file? path).bind fun place =>
    if t.hasDirectory place then none else some (t.put place text)

/-- Looks at a tree. -/
def files (t : FileTree) : Files Id where
  read? path := t.read? path
  isPresent path := (t.read? path).isSome || (t.directory? path).isSome

/-- Takes a change that may fail. -/
def change (step : FileTree → Option FileTree) : StateM FileTree Bool := fun t =>
  match step t with
  | some changed => (true, changed)
  | none => (false, t)

/-- Changes the tree in the state. -/
def storage : Storage (StateM FileTree) where
  isDirectory path := fun t => ((t.directory? path).isSome, t)
  makeDirectory path := change fun t => t.makeDirectory? path
  write path text := change fun t => t.write? path text

/-! ## What changes -/

/-- A tree with a text at a place and directories above it. -/
def lay (t : FileTree) (place : List String) (text : String) : FileTree :=
  let above := (Path.beginnings place.dropLast).filter (!t.hasDirectory ·)
  (above.foldl putDirectory t).put place text

/-- The tree of texts under their paths. -/
def ofList (texts : List (String × String)) : FileTree :=
  texts.foldl (fun t e => t.lay ((Path.parts e.1).filter (!Path.isIdle ·)) e.2) {}

/-- Whether a path of a place leads out of the working directory. -/
def isOutside (path : String) : Bool := (Path.parts path).head? = some ".."

/-- The files in the working directory that another tree does not have with the same text. -/
def newFiles (t old : FileTree) : Keyed String :=
  t.texts.filter fun path text => !isOutside path && old.texts.get? path ≠ some text

end FileTree

end IdlDecls
