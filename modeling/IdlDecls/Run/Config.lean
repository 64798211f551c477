import IdlDecls.Integration.Options
import IdlDecls.Run.Path

/-!
# Configuration

The directories and file names of a run and the choice for missing targets; whatever is not
configured has a default. A configuration is read from JSON or TOML, which differ in what they let
pass. `Config.fault?` finds what makes a configuration unusable: a blank name, or two outputs with
one name.
-/

namespace IdlDecls

/-! ## The configuration -/

/-- File names inside the input directory. -/
structure InputFiles where
  /-- The graph that every fragment is merged into. -/
  baseline : String := "browser.webidl.preprocessed.json"
  sources : String := "idlSources.json"
  removedTypes : String := "removedTypes.json"
  addedTypes : String := "addedTypes.json"
  overridingTypes : String := "overridingTypes.json"
  comments : String := "comments.json"
  knownTypes : String := "knownTypes.json"
  /-- The directory of the fragments and their comment maps. -/
  idlDir : String := "idl"
deriving DecidableEq, Repr, Inhabited

/-- File names inside the output directory. -/
structure OutputFiles where
  web : String := "dom.generated.d.ts"
  worker : String := "webworker.generated.d.ts"
  iterators : String := "dom.iterable.generated.d.ts"
deriving DecidableEq, Repr, Inhabited

/-- The configuration of a run (`GeneratorConfig`). -/
structure Config where
  inputDir : String := "inputfiles"
  outputDir : String := "generated"
  inputs : InputFiles := {}
  outputs : OutputFiles := {}
  unresolved : Unresolved := .skip
deriving DecidableEq, Repr, Inhabited

/-- The input names under their keys. -/
def InputFiles.entries (f : InputFiles) : List (String × String) :=
  [("baseline", f.baseline), ("sources", f.sources), ("removed_types", f.removedTypes),
    ("added_types", f.addedTypes), ("overriding_types", f.overridingTypes),
    ("comments", f.comments), ("known_types", f.knownTypes), ("idl_dir", f.idlDir)]

/-- The output names under their keys. -/
def OutputFiles.entries (f : OutputFiles) : List (String × String) :=
  [("web", f.web), ("worker", f.worker), ("iterators", f.iterators)]

/-! ## Reading and writing -/

/-- What a data format lets pass. -/
structure Format where
  /-- Whether a list may have more items than the record it stands for has fields. -/
  surplus : Bool
  /-- Which values may stand under the name of a choice. -/
  closes : Json → Bool

/-- Whether a value is an object or a list without content. -/
def Json.isEmptyGroup : Json → Bool
  | .obj [] => true
  | .arr [] => true
  | _ => false

namespace Format

/-- JSON lets no item pass that has no field, and null stands under the name of a choice. -/
def json : Format := ⟨false, Json.isNull⟩

/-- TOML lets surplus items pass, and an empty table or array stands under the name of a choice. -/
def toml : Format := ⟨true, Json.isEmptyGroup⟩

/-- A record. -/
def record {α : Type} (format : Format) (keys : List String)
    (read : List (String × Json) → Reading α) : Json → Reading α
  | .arr items =>
    Read.record keys read (.arr (if format.surplus then items.take keys.length else items))
  | j => Read.record keys read j

end Format

open Read in
def InputFiles.ofJson (format : Format) : Json → Reading InputFiles :=
  let default : InputFiles := {}
  format.record (default.entries.map (·.1)) fun fields => do
    let name (fallback key : String) : Reading String := orElse fallback text fields key
    let baseline ← name default.baseline "baseline"
    let sources ← name default.sources "sources"
    let removedTypes ← name default.removedTypes "removed_types"
    let addedTypes ← name default.addedTypes "added_types"
    let overridingTypes ← name default.overridingTypes "overriding_types"
    let comments ← name default.comments "comments"
    let knownTypes ← name default.knownTypes "known_types"
    let idlDir ← name default.idlDir "idl_dir"
    pure { baseline, sources, removedTypes, addedTypes, overridingTypes, comments, knownTypes,
           idlDir }

open Read in
def OutputFiles.ofJson (format : Format) : Json → Reading OutputFiles :=
  let default : OutputFiles := {}
  format.record (default.entries.map (·.1)) fun fields => do
    let name (fallback key : String) : Reading String := orElse fallback text fields key
    let web ← name default.web "web"
    let worker ← name default.worker "worker"
    let iterators ← name default.iterators "iterators"
    pure { web, worker, iterators }

open Read in
def Config.ofJson (format : Format) : Json → Reading Config :=
  let default : Config := {}
  format.record ["input_dir", "output_dir", "inputs", "outputs", "unresolved"] fun fields => do
    let inputDir ← orElse default.inputDir text fields "input_dir"
    let outputDir ← orElse default.outputDir text fields "output_dir"
    let inputs ← orElse default.inputs (InputFiles.ofJson format) fields "inputs"
    let outputs ← orElse default.outputs (OutputFiles.ofJson format) fields "outputs"
    let unresolved ← orElse default.unresolved (Unresolved.ofJson format.closes) fields "unresolved"
    pure { inputDir, outputDir, inputs, outputs, unresolved }

/-- The object of names under their keys. -/
def Write.names (layout : Layout) (entries : List (String × String)) : Json :=
  layout (entries.map fun e => (e.1, .str e.2))

def Config.toJson (layout : Layout) (c : Config) : Json :=
  layout [("input_dir", .str c.inputDir), ("output_dir", .str c.outputDir),
    ("inputs", Write.names layout c.inputs.entries),
    ("outputs", Write.names layout c.outputs.entries), ("unresolved", c.unresolved.toJson)]

/-! ## Faults -/

namespace Config

/-- What makes a configuration unusable. -/
inductive Fault where
  /-- A name is blank. -/
  | blank (key : String)
  /-- Two outputs have one name. -/
  | sameOutput (key other name : String)
deriving DecidableEq, Repr

/-- The fault in words. -/
def Fault.message : Fault → String
  | .blank key => key ++ " must not be empty"
  | .sameOutput key other name => "outputs " ++ key ++ " and " ++ other ++ " both write " ++ name

/-- The first name that is blank. -/
def blankFault? (entries : List (String × String)) : Option Fault :=
  (entries.find? fun e => Text.blank e.2).map fun e => .blank e.1

/-- The first name that a later entry has too. -/
def sharedFault? : List (String × String) → Option Fault
  | [] => none
  | (key, name) :: rest =>
    match rest.find? fun e => e.2 = name with
    | some other => some (.sameOutput key other.1 name)
    | none => sharedFault? rest

/-- The first fault of a configuration: blank names before shared ones (`validate`). -/
def fault? (c : Config) : Option Fault :=
  (blankFault? (c.inputs.entries ++ c.outputs.entries)).or (sharedFault? c.outputs.entries)

/-! ## Paths -/

/-- The path of an input (`input`). -/
def input (c : Config) (name : String) : String := Path.join c.inputDir name

/-- The path of a file that belongs to a source. -/
def sourceFile (c : Config) (title ending : String) : String :=
  Path.join (Path.join c.inputDir c.inputs.idlDir) (title ++ ending)

/-- The path of the fragment of a source (`fragment_path`). -/
def fragmentPath (c : Config) (title : String) : String := c.sourceFile title ".widl.json"

/-- The path of the comment map of a source (`comment_map_path`). -/
def commentMapPath (c : Config) (title : String) : String := c.sourceFile title ".commentmap.json"

/-- The path of the file for windows (`web_output`). -/
def webPath (c : Config) : String := Path.join c.outputDir c.outputs.web

/-- The path of the file for workers (`worker_output`). -/
def workerPath (c : Config) : String := Path.join c.outputDir c.outputs.worker

/-- The path of the file for iterators (`iterators_output`). -/
def iteratorsPath (c : Config) : String := Path.join c.outputDir c.outputs.iterators

end Config

end IdlDecls
