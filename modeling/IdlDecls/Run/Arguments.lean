/-!
# Arguments

The command line names one of two commands and options for it. The switches for more and for fewer
log lines stand before or behind the command, each at most once in either place; the other options
stand behind it, at most once. A value follows its option behind an equals sign or as the next
argument, which may not begin with a hyphen unless it is one.
-/

namespace IdlDecls

/-- What a run does with the integrated graph. -/
inductive Command where
  /-- Write the declaration files. -/
  | generate
  /-- Print the graph. -/
  | merge
deriving DecidableEq, Repr

/-- The command with a name. -/
def Command.ofName? : String → Option Command
  | "generate" => some .generate
  | "merge" => some .merge
  | _ => none

/-- How much is logged. -/
structure Switches where
  verbose : Bool := false
  quiet : Bool := false
deriving DecidableEq, Repr, Inhabited

namespace Switches

/-- Turns one switch on that is off. -/
def turnOn? (s : Switches) : (letter : Char) → Option Switches
  | 'v' => if s.verbose then none else some { s with verbose := true }
  | 'q' => if s.quiet then none else some { s with quiet := true }
  | _ => none

/-- Takes an argument that turns switches on: one by its name, or some by their letters. -/
def take? (s : Switches) (argument : String) : Option Switches :=
  if argument = "--verbose" then s.turnOn? 'v'
  else if argument = "--quiet" then s.turnOn? 'q'
  else
    match argument.toList with
    | '-' :: letter :: letters => (letter :: letters).foldlM turnOn? s
    | _ => none

/-- The switches that are on in one of two places. -/
def or (s t : Switches) : Switches := ⟨s.verbose || t.verbose, s.quiet || t.quiet⟩

end Switches

/-- An option that has a value. -/
inductive Setting where
  | inputDir
  | outputDir
  | config
deriving DecidableEq, Repr

/-- The option with a name. -/
def Setting.ofName? : String → Option Setting
  | "--input-dir" => some .inputDir
  | "--output-dir" => some .outputDir
  | "--config" => some .config
  | _ => none

/-- What is asked of a run. -/
structure Arguments where
  command : Command
  /-- The directory of the inputs, in place of the configured one. -/
  inputDir : Option String := none
  /-- The directory of the outputs, in place of the configured one. -/
  outputDir : Option String := none
  /-- The configuration file. -/
  config : Option String := none
  /-- Whether a missing target is a failure. -/
  strict : Bool := false
  switches : Switches := {}
deriving DecidableEq, Repr

namespace Arguments

/-- The value of an option, if it has been given. -/
def get? (a : Arguments) : Setting → Option String
  | .inputDir => a.inputDir
  | .outputDir => a.outputDir
  | .config => a.config

/-- Gives a value to an option that has none; a value is not empty. -/
def set? (a : Arguments) (setting : Setting) (value : String) : Option Arguments :=
  if value = "" ∨ (a.get? setting).isSome then none
  else
    match setting with
    | .inputDir => some { a with inputDir := some value }
    | .outputDir => some { a with outputDir := some value }
    | .config => some { a with config := some value }

/-- Whether an argument can be a value on its own. -/
def isValue (argument : String) : Bool :=
  argument = "-" || argument.toList.head? ≠ some '-'

/-- An argument in front of its first equals sign, and what is behind the sign. -/
def splitValue (argument : String) : String × Option String :=
  let cs := argument.toList
  match cs.dropWhile (· ≠ '=') with
  | [] => (argument, none)
  | _ :: value => (String.ofList (cs.takeWhile (· ≠ '=')), some (String.ofList value))

/-- Takes an argument that needs no other: the one for strict runs, a switch, or an option with its
value. -/
def take? (a : Arguments) (s : Switches) (argument : String) : Option (Arguments × Switches) :=
  if argument = "--strict" then if a.strict then none else some ({ a with strict := true }, s)
  else
    match splitValue argument with
    | (name, some value) => do pure (← a.set? (← Setting.ofName? name) value, s)
    | _ => (s.take? argument).map (a, ·)

/-- Adds the switches that were turned on behind the command. -/
def finish (a : Arguments) (s : Switches) : Arguments :=
  { a with switches := a.switches.or s }

/-- Takes the arguments behind a command. Two hyphens end them. -/
def takeAll? (a : Arguments) (s : Switches) : List String → Option Arguments
  | [] => some (a.finish s)
  | [argument] =>
    if argument = "--" then some (a.finish s)
    else (a.take? s argument).map fun (a, s) => a.finish s
  | argument :: next :: rest =>
    match Setting.ofName? argument with
    | some setting =>
      if isValue next then (a.set? setting next).bind fun a => takeAll? a s rest else none
    | none => (a.take? s argument).bind fun (a, s) => takeAll? a s (next :: rest)

/-- Takes the arguments up to the command and those behind it. -/
def takeCommand? (s : Switches) : List String → Option Arguments
  | [] => none
  | argument :: rest =>
    match Command.ofName? argument with
    | some command => takeAll? { command, switches := s } {} rest
    | none => (s.take? argument).bind fun s => takeCommand? s rest

/-- What a command line asks for, if it is well formed. -/
def ofList? (arguments : List String) : Option Arguments := takeCommand? {} arguments

end Arguments

end IdlDecls
