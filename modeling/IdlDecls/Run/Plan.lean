import IdlDecls.Json.Printer
import IdlDecls.Run.Arguments
import IdlDecls.Run.FileTree
import IdlDecls.Run.Inputs

/-!
# Plans

A run first looks at files and computes all that it will print or write; this is its plan. Only a
complete plan is carried out, so a run that fails before has changed nothing.
-/

namespace IdlDecls

/-- What is left to do of a run. -/
inductive Plan where
  /-- Print a text. -/
  | print (text : String)
  /-- Make a directory and write texts to files. -/
  | write (directory : String) (texts : List (String × String))
deriving DecidableEq, Repr

variable {m : Type → Type} [Monad m]

/-! ## Making a plan -/

/-- The configuration with what the arguments replace. -/
def Config.replace (c : Config) (a : Arguments) : Config :=
  { c with
    inputDir := a.inputDir.getD c.inputDir
    outputDir := a.outputDir.getD c.outputDir
    unresolved := if a.strict then .fail else c.unresolved }

/-- The configuration of a run (`resolve`). -/
def Arguments.resolve (a : Arguments) (files : Files m) : ExceptT RunError m Config := do
  let c ← match a.config with
    | none => pure {}
    | some path => files.config path
  let c := c.replace a
  match c.fault? with
  | some fault => throw (.configInvalid fault)
  | none => pure c

/-- The graph that the inputs integrate to (`integrate`). -/
def Inputs.integrated (inputs : Inputs) (c : Config) : Except RunError Graph :=
  match integrate { unresolved := c.unresolved } inputs.baseline inputs.fragments
      inputs.corrections with
  | .ok (g, _) => .ok g
  | .error e => .error (.integration e)

/-- The graph as indented JSON, in declared order. -/
def Graph.pretty (g : Graph) : String := (g.toJson Layout.declared).pretty

/-- The part of a graph for a context with its known types. -/
def Graph.viewFor (g : Graph) (known : KnownTypes) (context : String) : Except RunError Graph :=
  (g.view context (known.forContext context)).mapError (.view context)

/-- The texts of the three files of declarations for a graph, under their paths (`run_generate`). -/
def Graph.outputs (g : Graph) (known : KnownTypes) (c : Config) :
    Except RunError (List (String × String)) := do
  let window ← g.viewFor known "Window"
  let worker ← g.viewFor known "Worker"
  let web ← (emit window .web).mapError .emission
  let worker ← (emit worker .worker).mapError .emission
  let iterators ← (emit g .iterators).mapError .emission
  pure [(c.webPath, web), (c.workerPath, worker), (c.iteratorsPath, iterators)]

/-- The plan of a command for what has been read (`run_generate` and `run_merge`). -/
def Inputs.plan (inputs : Inputs) (c : Config) : Command → Except RunError Plan
  | .merge => do pure (.print (← inputs.integrated c).pretty)
  | .generate => do
    pure (.write c.outputDir (← (← inputs.integrated c).outputs inputs.known c))

/-- The plan of a run. -/
def Arguments.plan (a : Arguments) (files : Files m) : ExceptT RunError m Plan := do
  let c ← a.resolve files
  let inputs ← files.inputs c
  ExceptT.mk (pure (inputs.plan c a.command))

/-! ## Carrying it out -/

/-- Writes texts to files one after the other. -/
def Storage.writeAll (storage : Storage m) : List (String × String) → ExceptT RunError m Unit
  | [] => pure ()
  | (path, text) :: rest => do
    if ← storage.write path text then writeAll storage rest else throw (.unwritable path)

/-- Makes a directory and writes texts to files (the end of `run_generate`). -/
def Storage.deliver (storage : Storage m) (directory : String) (texts : List (String × String)) :
    ExceptT RunError m Unit := do
  if ← storage.makeDirectories directory then storage.writeAll texts
  else throw (.noOutputDir directory)

/-- Carries a plan out and gives what is to be printed. -/
def Plan.carryOut (storage : Storage m) : Plan → ExceptT RunError m (Option String)
  | .print text => pure (some text)
  | .write directory texts => do
    storage.deliver directory texts
    pure none

/-! ## Runs on a tree -/

/-- A run on a file tree: what it prints, or why it fails, and the tree that it leaves behind
(`main_entry`). -/
def Arguments.run (a : Arguments) (t : FileTree) : Except RunError (Option String) × FileTree :=
  match (a.plan t.files).run with
  | .error e => (.error e, t)
  | .ok plan => (plan.carryOut FileTree.storage).run t

end IdlDecls
