import IdlDecls.Model.Reader
import IdlDecls.Model.Writer
import IdlDecls.View.Visible

/-!
# Known types

Lists of names, one for windows and one for workers, that are kept in a view whether or not something
refers to them.
-/

namespace IdlDecls

/-- Names that are wanted whether or not something refers to them, by kind of context. -/
structure KnownTypes where
  window : List String := []
  worker : List String := []
deriving DecidableEq, Repr, Inhabited

/-- The names for a context (`for_context`). -/
def KnownTypes.forContext (known : KnownTypes) (context : String) : List String :=
  if isWorker context then known.worker else known.window

/-- The keys of the lists in declared order. -/
def KnownTypes.keys : List String := ["Window", "Worker"]

open Read in
def KnownTypes.ofJson : Json → Reading KnownTypes :=
  distinctRecord keys fun fields => do
    let window ← orElse [] (list text) fields "Window"
    let worker ← orElse [] (list text) fields "Worker"
    pure { window, worker }

def KnownTypes.toJson (layout : Layout) (known : KnownTypes) : Json :=
  layout [("Window", .arr (known.window.map .str)), ("Worker", .arr (known.worker.map .str))]

end IdlDecls
