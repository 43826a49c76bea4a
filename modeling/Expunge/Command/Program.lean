import Expunge.Command.Arguments
import Expunge.Report.Json
import Expunge.Report.Text
import Expunge.Run
import Expunge.Settings.Load
import Expunge.Text.Blank

/-!
# The command

What the command does with a file tree: its exit code, what it prints, and the tree afterwards. It
exits with 2 where nothing could be done, with 1 where single files went wrong, else with 0.
-/

namespace Expunge.Command
set_option autoImplicit false

/-- What the surroundings say about colors. -/
structure Surroundings where
  /-- The terminal shows colors, or is said to. -/
  showsColor : Bool := false
  /-- Colors are not wanted. -/
  noColor : Bool := false
  deriving DecidableEq, Repr

/-- Why nothing could be done. -/
inductive Failure
  | usage (cause : UsageFault)
  | fault (cause : Fault) (colored : Bool)
  deriving DecidableEq, Repr

/-- The text of a failure: a fault is shown under its code and with its advice. -/
def Failure.text : Failure → String
  | usage cause => line ("error: " ++ cause.message)
  | fault cause colored =>
    line (if colored then "\x1B[31m" ++ cause.code ++ "\x1B[0m" else cause.code) ++
      line ("\n  " ++ cause.message) ++ (cause.help?.map fun h => line ("  help: " ++ h)).getD ""

/-- The first line of a failure, without blanks at its end. -/
def Failure.firstLine (f : Failure) : String :=
  String.ofList (Text.trimEnd (f.text.toList.takeWhile (· ≠ '\n')))

/-- What a command line comes to. -/
structure Result where
  exitCode : Nat
  /-- The text on standard output. -/
  output : String
  /-- Why nothing could be done, if so. -/
  failure? : Option Failure
  /-- The files afterwards. -/
  tree : FileTree

/-- Emphasis is shown. -/
def colored (e : Surroundings) (a : Arguments) : Bool :=
  !a.has .noColor && !e.noColor && e.showsColor

/-- The settings that arguments ask for. -/
def settingsFor (t : FileTree) (a : Arguments) : Except Fault Settings :=
  match a.config? with
  | some path => Settings.loadFrom t path
  | none => Settings.loadOrDefault t a.directory

/-- Processes a directory as arguments ask for. -/
def process (e : Surroundings) (t : FileTree) (a : Arguments) : Result :=
  let style : TextStyle := ⟨a.has .verbose, colored e a⟩
  let mode : RunMode := ⟨a.has .dryRun, a.has .diff⟩
  match settingsFor t a with
  | .error fault => ⟨2, "", some (.fault fault style.colored), t⟩
  | .ok settings =>
    let start := match a.format with
      | .text => style.describeStart a.directory mode.dryRun
      | .json => ""
    match run t a.directory settings mode with
    | (.error fault, after) => ⟨2, start, some (.fault fault style.colored), after⟩
    | (.ok summary, after) =>
      let rest := match a.format with
        | .text => style.describeSummary a.directory summary
        | .json => line summary.toJson
      ⟨if summary.isOk then 0 else 1, start ++ rest, none, after⟩

/-- The name and version of the program. -/
def versionText : String := "ossify_cli 0.1.0\n"

/-- How the command is used. -/
def helpText : String :=
  "Remove proprietary-licensed code from a source tree.\n\n" ++
  "Usage: ossify [OPTIONS] <DIRECTORY>\n\n" ++
  "Arguments:\n" ++
  "  <DIRECTORY>  Directory containing the source tree to process\n\n" ++
  "Options:\n" ++
  "      --dry-run          Show what would be done without deleting or rewriting any file\n" ++
  "  -v, --verbose          Show detailed output for each file\n" ++
  "      --diff             Print a diff for every file whose snippets are removed\n" ++
  "      --format <FORMAT>  Output format for the run summary [default: text] [possible values: text, json]\n" ++
  "      --config <CONFIG>  Path to a config file\n" ++
  "      --no-color         Disable colored output\n" ++
  "  -h, --help             Print help\n" ++
  "  -V, --version          Print version\n"

/-- Runs a command line on a file tree. -/
def execute (e : Surroundings) (t : FileTree) (arguments : List String) : Result :=
  match read arguments with
  | .error fault => ⟨2, "", some (.usage fault), t⟩
  | .ok .help => ⟨0, helpText, none, t⟩
  | .ok .version => ⟨0, versionText, none, t⟩
  | .ok (.process a) => process e t a

end Expunge.Command
