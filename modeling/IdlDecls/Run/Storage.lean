import IdlDecls.Run.Path

/-!
# Files and directories

What a run needs of the place where its files are, as operations in any monad: `Files` only looks,
`Storage` changes. Each operation tells whether it succeeded. A directory is made together with those
above it.
-/

namespace IdlDecls

/-- Looking at files. -/
structure Files (m : Type → Type) where
  /-- The text of the file at a path. -/
  read? : String → m (Option String)
  /-- Whether there is a file or a directory at a path. -/
  isPresent : String → m Bool

/-- Making directories and writing files. -/
structure Storage (m : Type → Type) where
  /-- Whether there is a directory at a path. -/
  isDirectory : String → m Bool
  /-- Makes a directory where nothing is, in a directory that is there. -/
  makeDirectory : String → m Bool
  /-- Writes a file in a directory that is there, over the file that may be there. -/
  write : String → String → m Bool

namespace Storage

variable {m : Type → Type} [Monad m]

/-- Makes the directories at some paths, one after the other, unless they are there. -/
def makeEach (storage : Storage m) : List String → m Bool
  | [] => pure true
  | path :: rest => do
    let made ← storage.makeDirectory path
    let ready ← if made then pure true else storage.isDirectory path
    if ready then makeEach storage rest else pure false

/-- Makes the directory at a path and those above it. The empty path needs none. -/
def makeDirectories (storage : Storage m) (path : String) : m Bool :=
  if path = "" then pure true else storage.makeEach (Path.stages path)

end Storage

end IdlDecls
