import IdlDecls.Model.Reader
import IdlDecls.Model.Writer

/-!
# Options of an integration

What becomes of a partial definition or an includes statement whose target is missing. The choice is
read from its name, or from an object whose only key is the name.
-/

namespace IdlDecls

/-- What to do with a reference to a missing definition. -/
inductive Unresolved where
  /-- Leave it out. -/
  | skip
  /-- Fail. -/
  | fail
deriving DecidableEq, Repr, Inhabited

/-- The options of an integration (`IntegratorOptions`). -/
structure Options where
  unresolved : Unresolved := .skip
deriving DecidableEq, Repr, Inhabited

namespace Unresolved

/-- The name of a choice. -/
def name : Unresolved → String
  | .skip => "skip"
  | .fail => "fail"

/-- The choice with a name. -/
def ofName? (name : String) : Option Unresolved :=
  [skip, fail].find? fun choice => choice.name = name

/-- A choice; `closes` tells which values may stand under its name in an object. -/
def ofJson (closes : Json → Bool) : Json → Reading Unresolved
  | .str name => Read.found (ofName? name)
  | .obj [(name, value)] =>
    if closes value then Read.found (ofName? name) else throw .malformed
  | _ => throw .malformed

def toJson (choice : Unresolved) : Json := .str choice.name

end Unresolved

open Read in
def Options.ofJson : Json → Reading Options :=
  record ["unresolved"] fun fields => do
    let unresolved ← orElse .skip (Unresolved.ofJson Json.isNull) fields "unresolved"
    pure { unresolved }

def Options.toJson (layout : Layout) (options : Options) : Json :=
  layout [("unresolved", options.unresolved.toJson)]

end IdlDecls
