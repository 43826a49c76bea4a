import Expunge.Text.Visible

/-!
# Command line arguments

The arguments name a directory and choose how it is processed. A switch is given at most once, an
option takes its value from the same argument after `=` or from the next one, and after `--` every
argument is a directory. The value that waits to be taken is checked when the next known argument
comes, so an unknown argument is reported before a bad value.
-/

namespace Expunge.Command
set_option autoImplicit false

/-- How the summary is written. -/
inductive Format
  | text
  | json
  deriving DecidableEq, Repr

/-- A choice that is made by naming it. -/
inductive Switch
  | dryRun
  | verbose
  | diff
  | noColor
  deriving DecidableEq, Repr

/-- A choice with a value. -/
inductive Choice
  | format
  | config
  deriving DecidableEq, Repr

/-- The long name of a switch. -/
def Switch.name : Switch → String
  | dryRun => "--dry-run"
  | verbose => "--verbose"
  | diff => "--diff"
  | noColor => "--no-color"

/-- The long name of an option. -/
def Choice.name : Choice → String
  | format => "--format"
  | config => "--config"

/-- An option as it is named in messages. -/
def Choice.usage : Choice → String
  | format => "--format <FORMAT>"
  | config => "--config <CONFIG>"

/-- What a named argument asks for. -/
inductive Named
  | switch (s : Switch)
  | choice (c : Choice)
  | help
  | version
  deriving DecidableEq, Repr

/-- The argument with a long name. -/
def Named.ofLong? (name : String) : Option Named :=
  ([Switch.dryRun, .verbose, .diff, .noColor].find? (·.name = name)).map .switch
    |>.or (([Choice.format, .config].find? (·.name = name)).map .choice)
    |>.or (if name = "--help" then some .help else none)
    |>.or (if name = "--version" then some .version else none)

/-- The argument with a short name. -/
def Named.ofShort? : Char → Option Named
  | 'v' => some (.switch .verbose)
  | 'h' => some .help
  | 'V' => some .version
  | _ => none

/-- Why arguments are refused. -/
inductive UsageFault
  | unexpectedArgument (argument : String)
  | unexpectedValue (value name : String)
  | missingValue (usage : String)
  | invalidValue (value usage : String)
  | repeated (usage : String)
  | missingDirectory
  deriving DecidableEq, Repr

/-- What a user gave, as it is quoted in messages: without control sequences. -/
def quote (given : String) : String := "'" ++ String.ofList (Text.visible given.toList) ++ "'"

/-- The text of a refusal. -/
def UsageFault.message : UsageFault → String
  | unexpectedArgument argument => "unexpected argument " ++ quote argument ++ " found"
  | unexpectedValue value name =>
    "unexpected value " ++ quote value ++ " for '" ++ name ++ "' found; no more were expected"
  | missingValue usage => "a value is required for '" ++ usage ++ "' but none was supplied"
  | invalidValue value usage => "invalid value " ++ quote value ++ " for '" ++ usage ++ "'"
  | repeated usage => "the argument '" ++ usage ++ "' cannot be used multiple times"
  | missingDirectory => "the following required arguments were not provided:\n  <DIRECTORY>"

/-- What a user asks for. -/
structure Arguments where
  directory : String
  switches : List Switch := []
  format : Format := .text
  /-- The settings file to use. -/
  config? : Option String := none
  deriving DecidableEq, Repr

/-- The switch was given. -/
def Arguments.has (a : Arguments) (s : Switch) : Bool := a.switches.contains s

/-- A request of the command line. -/
inductive Request
  | process (a : Arguments)
  | help
  | version
  deriving DecidableEq, Repr

/-- An argument that is not checked yet. -/
inductive Waiting
  | nothing
  | directory (path : String)
  | choice (c : Choice) (value? : Option String)
  deriving DecidableEq, Repr

/-- The arguments that were read. -/
structure Reading where
  directory? : Option String := none
  switches : List Switch := []
  format? : Option Format := none
  config? : Option String := none
  waiting : Waiting := .nothing
  deriving DecidableEq, Repr

namespace Reading

/-- Takes the value of an option. -/
def takeChoice (r : Reading) (c : Choice) (value : String) : Except UsageFault Reading :=
  match c with
  | .format =>
    if r.format?.isSome then .error (.repeated c.usage)
    else if value = "text" then .ok { r with format? := some .text }
    else if value = "json" then .ok { r with format? := some .json }
    else if value.isEmpty then .error (.missingValue c.usage)
    else .error (.invalidValue value c.usage)
  | .config =>
    if r.config?.isSome then .error (.repeated c.usage)
    else if value.isEmpty then .error (.missingValue c.usage)
    else .ok { r with config? := some value }

/-- Takes what waits. -/
def settle (r : Reading) : Except UsageFault Reading :=
  let settled := { r with waiting := .nothing }
  match r.waiting with
  | .nothing => .ok r
  | .directory path =>
    if path.isEmpty then .error (.missingValue "<DIRECTORY>")
    else .ok { settled with directory? := some path }
  | .choice c none => .error (.missingValue c.usage)
  | .choice c (some value) => settled.takeChoice c value

/-- Takes a switch. -/
def takeSwitch (r : Reading) (s : Switch) : Except UsageFault Reading :=
  if s ∈ r.switches then .error (.repeated s.name)
  else .ok { r with switches := s :: r.switches }

/-- Takes an argument without a name. -/
def takeDirectory (r : Reading) (path : String) : Except UsageFault Reading :=
  match r.directory?, r.waiting with
  | some _, _ | _, .directory _ => .error (.unexpectedArgument path)
  | none, _ => do
    let r ← r.settle
    .ok { r with waiting := .directory path }

/-- The request, when all arguments are read. -/
def finish (r : Reading) : Except UsageFault Request := do
  let r ← r.settle
  match r.directory? with
  | none => .error .missingDirectory
  | some directory =>
    .ok (.process ⟨directory, r.switches, r.format?.getD .text, r.config?⟩)

end Reading

/-- What a named argument leads to: a request at once, or further reading. -/
abbrev Step := Except UsageFault (Request ⊕ Reading)

/-- Takes a named argument without a value of its own. -/
def Reading.takeNamed (r : Reading) (n : Named) : Step := do
  let r ← r.settle
  match n with
  | .help => .ok (.inl .help)
  | .version => .ok (.inl .version)
  | .switch s => (r.takeSwitch s).map .inr
  | .choice c => .ok (.inr { r with waiting := .choice c none })

/-- Takes an argument with a long name. -/
def Reading.takeLong (r : Reading) (name : String) (value? : Option String) : Step :=
  match Named.ofLong? name, value? with
  | none, _ => .error (.unexpectedArgument name)
  | some (.choice c), some value => do
    let r ← r.settle
    (r.takeChoice c value).map .inr
  | some _, some value => .error (.unexpectedValue value name)
  | some n, none => r.takeNamed n

/-- Takes the short names of one argument. -/
def Reading.takeShorts (r : Reading) : List Char → Step
  | [] => .ok (.inr r)
  | c :: cs =>
    match Named.ofShort? c with
    | none => .error (.unexpectedArgument (String.ofList ['-', c]))
    | some n => do
      match ← r.takeNamed n with
      | .inl request => .ok (.inl request)
      | .inr r => r.takeShorts cs

/-- Reads the arguments after `--`. -/
def readTrailing (r : Reading) : List String → Except UsageFault Request
  | [] => r.finish
  | a :: as => do readTrailing (← r.takeDirectory a) as

/-- Reads arguments. -/
def readFrom (r : Reading) : List String → Except UsageFault Request
  | [] => r.finish
  | a :: as =>
    match a.toList with
    | ['-', '-'] => readTrailing r as
    | '-' :: '-' :: cs => do
      let name := cs.takeWhile (· ≠ '=')
      let value? := (cs.dropWhile (· ≠ '=')).tail?.map String.ofList
      match ← r.takeLong (String.ofList ('-' :: '-' :: name)) value? with
      | .inl request => .ok request
      | .inr r => readFrom r as
    | '-' :: c :: cs => do
      match ← r.takeShorts (c :: cs) with
      | .inl request => .ok request
      | .inr r => readFrom r as
    | _ =>
      match r.waiting with
      | .choice c none => readFrom { r with waiting := .choice c (some a) } as
      | _ => do readFrom (← r.takeDirectory a) as

/-- Reads the arguments of a command line. -/
def read (arguments : List String) : Except UsageFault Request := readFrom {} arguments

end Expunge.Command
