import IdlDecls.Run.Plan

/-!
# The command line program

`main` makes the plan of the run that its arguments ask for, with the files of the system, and
carries it out. It returns 0 for a run that succeeds, 1 for one that fails and 2 for arguments that
are refused. Failures and notes on usage go to the standard error stream.
-/

namespace IdlDecls

/-- Whether an action succeeds. -/
def succeeds {α : Type} (action : IO α) : IO Bool := do
  try
    discard action
    pure true
  catch _ => pure false

/-- Looks at the files of the system. -/
def systemFiles : Files IO where
  read? path := do
    try
      pure (some (← IO.FS.readFile path))
    catch _ => pure none
  isPresent path := succeeds (IO.FS.realPath path)

/-- Changes the files of the system. A directory is a place in which a dot leads somewhere. -/
def systemStorage : Storage IO where
  isDirectory path := succeeds (IO.FS.realPath (path ++ "/."))
  makeDirectory path := succeeds (IO.FS.createDir path)
  write path text := succeeds (IO.FS.writeFile path text)

/-- A reason in words. -/
def Reason.text : Reason → String
  | .message text => text
  | .file => "the file cannot be used"
  | .json => "the JSON is not as expected"
  | .toml => "the TOML is not as expected"

/-- How the program is called. -/
def usage : String :=
  "usage: [-v] [-q] (generate | merge) [--input-dir DIR] [--output-dir DIR] [--config FILE] [--strict]"

/-- Makes the plan for some arguments and carries it out. -/
def Arguments.runInSystem (a : Arguments) : ExceptT RunError IO (Option String) := do
  (← a.plan systemFiles).carryOut systemStorage

end IdlDecls

open IdlDecls in
/-- Runs the program. -/
def main (arguments : List String) : IO UInt32 := do
  match Arguments.ofList? arguments with
  | none =>
    IO.eprintln usage
    pure 2
  | some a =>
    match ← a.runInSystem.run with
    | .ok printed =>
      if let some text := printed then IO.println text
      pure 0
    | .error e =>
      IO.eprintln ("Error: " ++ "\n  ".intercalate (e.chain.map Reason.text))
      pure 1
