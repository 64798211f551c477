import IdlDecls.Integration.Comments
import IdlDecls.Integration.Integrate
import IdlDecls.Json.Parser
import IdlDecls.Run.Failure
import IdlDecls.Run.Source
import IdlDecls.Run.Storage
import IdlDecls.Toml.Document
import IdlDecls.View.Known

/-!
# Inputs

Everything that a run reads before it integrates, in a fixed order; the first input that cannot be
used decides. A source without a comment map has no comments. The list of sources and the known types
may not name a field twice, and what stands under keys of no meaning need not be a value there; in
graphs, fragments, templates and comment maps the last of two fields with one key counts, and
everything has to be a value.
-/

namespace IdlDecls

/-- Everything that a run reads besides its configuration. -/
structure Inputs where
  baseline : Graph
  fragments : List Fragment
  corrections : Corrections
  known : KnownTypes

namespace Files

variable {m : Type → Type} [Monad m] {α : Type}

/-! ## One file -/

/-- The text of a file. -/
def text (files : Files m) (path : String) : ExceptT InputError m String := do
  match ← files.read? path with
  | some text => pure text
  | none => throw (.unreadable path)

/-- A value that is read from the text of a file (`read_json`). -/
def parsed (files : Files m) (parse? : String → Option α) (path : String) :
    ExceptT InputError m α := do
  match parse? (← files.text path) with
  | some value => pure value
  | none => throw (.malformed path)

/-- What a text spells, read as it is written. Only what `select` leaves of it has to be a value. -/
def readAs? (select : Json.Spelling → Json.Spelling) (read : Json → Reading α) (text : String) :
    Option α := do
  let spelling ← Json.spelling? text
  let value ← (select spelling).value? Json.depthLimit
  (read value).toOption

/-- The list of sources. -/
def sourcesOf? (text : String) : Option (List Source) :=
  readAs? (.mapItems (.select Source.keys)) (Read.list Source.ofJson) text

/-- The known types. -/
def knownTypesOf? (text : String) : Option KnownTypes :=
  readAs? (.select KnownTypes.keys) KnownTypes.ofJson text

/-- A graph (`read_graph`). -/
def graph (files : Files m) (path : String) : ExceptT InputError m Graph := do
  match Graph.ofJson (← files.parsed Json.parse? path) with
  | .ok g => pure g
  | .error _ => throw (.notGraph path)

/-- A fragment. -/
def fragment (files : Files m) (path : String) : ExceptT InputError m Fragment := do
  match Fragment.ofJson (← files.parsed Json.parse? path) with
  | .ok f => pure f
  | .error _ => throw (.notFragment path)

/-- A removal template. -/
def template (files : Files m) (path : String) : ExceptT InputError m Template := do
  match Template.ofJson (← files.parsed Json.parse? path) with
  | .ok t => pure t
  | .error e => throw (.notTemplate path e)

/-- A comment map; a missing one is empty (`read_comment_map`). -/
def commentMap (files : Files m) (path : String) : ExceptT InputError m CommentMap := do
  if ← files.isPresent path then files.parsed (readAs? id (Read.keyed Read.text)) path else pure ∅

/-! ## The configuration -/

/-- The configuration that a text in TOML spells. -/
def configOf? (text : String) : Option Config :=
  (Toml.parse? text).bind fun j => (Config.ofJson .toml j).toOption

/-- The configuration in a file (`load`). -/
def config (files : Files m) (path : String) : ExceptT RunError m Config := do
  match ← files.read? path with
  | none => throw (.configUnreadable path)
  | some text =>
    match configOf? text with
    | some c => pure c
    | none => throw (.configMalformed path)

/-! ## All inputs -/

/-- The fragment of a source, with the title and the flag of the source and its comments filled
(`convert`). -/
def sourceFragment (files : Files m) (c : Config) (source : Source) :
    ExceptT RunError m Fragment := do
  let comments ← (files.commentMap (c.commentMapPath source.title)).adapt .input
  let fragment ← (files.fragment (c.fragmentPath source.title)).adapt (.conversion source.title)
  pure ({ fragment with title := source.title, deprecated := source.deprecated }.fillComments
    comments)

/-- The corrections. -/
def corrections (files : Files m) (c : Config) : ExceptT InputError m Corrections := do
  let removals ← files.template (c.input c.inputs.removedTypes)
  let additions ← files.graph (c.input c.inputs.addedTypes)
  let overrides ← files.graph (c.input c.inputs.overridingTypes)
  let comments ← files.graph (c.input c.inputs.comments)
  pure { removals, additions, overrides, comments }

/-- All inputs of a configuration (`load_inputs`). -/
def inputs (files : Files m) (c : Config) : ExceptT RunError m Inputs := do
  let baseline ← (files.graph (c.input c.inputs.baseline)).adapt .input
  let sources ← (files.parsed sourcesOf? (c.input c.inputs.sources)).adapt .input
  let fragments ← sources.mapM (files.sourceFragment c)
  let corrections ← (files.corrections c).adapt .input
  let known ← (files.parsed knownTypesOf? (c.input c.inputs.knownTypes)).adapt .input
  pure { baseline, fragments, corrections, known }

end Files

end IdlDecls
