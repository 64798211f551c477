import IdlDecls.Merge.Policy
import IdlDecls.Model.Reader
import IdlDecls.Removal.Prune

/-!
# Why an integration fails

The causes that the phases of an integration can fail with, and their messages. A pruned graph that
cannot be read back has no message of its own.
-/

namespace IdlDecls

/-- What a fragment refers to a missing definition with. -/
inductive Reference where
  | partialInterface
  | partialDictionary
  | includes
deriving DecidableEq, Repr

/-- The kind of reference in words. -/
def Reference.text : Reference → String
  | .partialInterface => "partial interface"
  | .partialDictionary => "partial dictionary"
  | .includes => "includes"

/-- Why an integration fails (`GraphError`). -/
inductive IntegrationError where
  /-- Two definitions do not merge. -/
  | conflict (conflict : Conflict)
  /-- The removal template does not fit the graph. -/
  | mismatch (mismatch : Mismatch)
  /-- An interface is to be exposed in no context. -/
  | emptyExposure (name : String)
  /-- The target of a partial definition or of an includes statement is missing. -/
  | unresolved (kind : Reference) (name : String)
  /-- A pruned graph is no graph. -/
  | unreadable (error : ReadError)
deriving DecidableEq, Repr

/-- The message for a conflict. -/
def Conflict.message (c : Conflict) : String :=
  "Conflicting definitions at " ++ c.pathText

/-- The message of a cause that has one. -/
def IntegrationError.message? : IntegrationError → Option String
  | .conflict c => some c.message
  | .mismatch e => some e.message
  | .emptyExposure name => some ("No exposure set for " ++ name)
  | .unresolved kind name => some ("Unresolved " ++ kind.text ++ " target: " ++ name)
  | .unreadable _ => none

/-- A merge as a phase of an integration. -/
def Merging.toIntegration {α : Type} (m : Merging α) : Except IntegrationError α :=
  m.mapError .conflict

end IdlDecls
