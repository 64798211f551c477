import IdlDecls.Model.Reader
import IdlDecls.Model.Writer

/-!
# Sources

The list of sources names the specifications that take part in a run. The title of a source leads to
its fragment and to its comment map.
-/

namespace IdlDecls

/-- A specification that takes part in a run (`IdlSource`). -/
structure Source where
  /-- Where the specification is published; it is for the reader of the list only. -/
  url : String := ""
  title : String
  deprecated : Bool := false
deriving DecidableEq, Repr, Inhabited

/-- The keys of a source in declared order. -/
def Source.keys : List String := ["url", "title", "deprecated"]

open Read in
def Source.ofJson : Json → Reading Source :=
  distinctRecord keys fun fields => do
    let deprecated ← orElse false bool fields "deprecated"
    let title ← required text fields "title"
    let url ← orElse "" text fields "url"
    pure { url, title, deprecated }

def Source.toJson (layout : Layout) (source : Source) : Json :=
  layout [("url", .str source.url), ("title", .str source.title),
    ("deprecated", .bool source.deprecated)]

end IdlDecls
