import IdlDecls.Declarations.Emit
import IdlDecls.Integration.Failure
import IdlDecls.Removal.Template
import IdlDecls.Run.Config
import IdlDecls.View.Extract

/-!
# Why a run fails

The causes that a run can fail with. Each is reported as a chain of reasons from what was attempted to
what went wrong; where a file, or a text in JSON or TOML, is at fault, the chain ends with that.
-/

namespace IdlDecls

/-- Why an input cannot be used. -/
inductive InputError where
  /-- The file cannot be read. -/
  | unreadable (path : String)
  /-- The text is not JSON, or holds something else than is expected there. -/
  | malformed (path : String)
  /-- The value is no graph. -/
  | notGraph (path : String)
  /-- The value is no fragment. -/
  | notFragment (path : String)
  /-- The value is no removal template. -/
  | notTemplate (path : String) (cause : Template.Invalid)

/-- Why a run fails. -/
inductive RunError where
  /-- The configuration file cannot be read. -/
  | configUnreadable (path : String)
  /-- The configuration file holds no configuration. -/
  | configMalformed (path : String)
  /-- The configuration is unusable. -/
  | configInvalid (fault : Config.Fault)
  /-- An input cannot be used. -/
  | input (cause : InputError)
  /-- The fragment of a source cannot be used. -/
  | conversion (title : String) (cause : InputError)
  /-- The inputs cannot be integrated. -/
  | integration (cause : IntegrationError)
  /-- There is no view for a context. -/
  | view (context : String) (cause : ViewError)
  /-- A file of declarations cannot be composed. -/
  | emission (cause : EmitError)
  /-- The output directory cannot be made. -/
  | noOutputDir (path : String)
  /-- An output cannot be written. -/
  | unwritable (path : String)

/-- A reason in the chain that reports a failure. -/
inductive Reason where
  /-- A message. -/
  | message (text : String)
  /-- A file is at fault. -/
  | file
  /-- A text or value in JSON is at fault. -/
  | json
  /-- A text or value in TOML is at fault. -/
  | toml
deriving DecidableEq, Repr

/-- The chain for an input. -/
def InputError.chain : InputError → List Reason
  | .unreadable path => [.message ("Failed to read " ++ path), .file]
  | .malformed path => [.message ("Failed to parse " ++ path), .json]
  | .notGraph path => [.message ("Invalid graph " ++ path), .json]
  | .notFragment path => [.message ("Invalid fragment " ++ path), .json]
  | .notTemplate path cause =>
    [.message ("Invalid removal template " ++ path), .message cause.message]

/-- The reason for an integration; a cause without a message is a value in JSON. -/
def IntegrationError.reason (e : IntegrationError) : Reason :=
  match e.message? with
  | some text => .message text
  | none => .json

/-- The chain for a run. -/
def RunError.chain : RunError → List Reason
  | .configUnreadable path => [.message ("Failed to read config " ++ path), .file]
  | .configMalformed path => [.message ("Invalid config " ++ path), .toml]
  | .configInvalid fault => [.message ("Invalid configuration: " ++ fault.message)]
  | .input cause => cause.chain
  | .conversion title cause => .message ("Failed to convert " ++ title) :: cause.chain
  | .integration cause => [.message "Failed to integrate IDL fragments", cause.reason]
  | .view context cause =>
    [.message ("Failed to extract " ++ context ++ " types"), .message cause.message]
  | .emission cause => [.message cause.message]
  | .noOutputDir path => [.message ("Failed to create output directory " ++ path), .file]
  | .unwritable path => [.message ("Failed to write " ++ path), .file]

end IdlDecls
