/-!
# What can be wrong with globs

A glob is refused for one of five causes. The first cause from the left decides. A list of globs
that were read may still be nested too deep to be used.
-/

namespace Expunge.Glob
set_option autoImplicit false

/-- Why a glob is refused. -/
inductive Fault
  /-- A class without its closing bracket. -/
  | unclosedClass
  /-- A range whose ends are in the wrong order. -/
  | invalidRange (low high : Char)
  /-- A closing brace without an open group. -/
  | unopenedGroup
  /-- A group without its closing brace. -/
  | unclosedGroup
  /-- A backslash at the end. -/
  | danglingEscape
  deriving DecidableEq, Repr

/-- The text of a cause. -/
def Fault.message : Fault → String
  | unclosedClass => "unclosed character class; missing ']'"
  | invalidRange low high =>
    "invalid range; '" ++ low.toString ++ "' > '" ++ high.toString ++ "'"
  | unopenedGroup => "unopened alternate group; missing '\x7b' (maybe escape '\x7d' with '[\x7d]'?)"
  | unclosedGroup => "unclosed alternate group; missing '\x7d' (maybe escape '\x7b' with '[\x7b]'?)"
  | danglingEscape => "dangling '\\'"

/-- A refused glob as it was written, with the cause. -/
structure Refusal where
  glob : String
  cause : Fault
  deriving DecidableEq, Repr

/-- The text of a refusal. -/
def Refusal.message (r : Refusal) : String :=
  "error parsing glob '" ++ r.glob ++ "': " ++ r.cause.message

/-- Where the globs of a list are nested too deep. -/
inductive NestingFault
  /-- An expression that is tested on its own, as it is written. -/
  | expression (written : String)
  /-- The place of an expression among those that are tested together. -/
  | place (n : Nat)
  deriving DecidableEq, Repr

/-- The text of a fault of the nesting. -/
def NestingFault.message : NestingFault → String
  | expression written => "error parsing glob '" ++ written ++ "': error parsing pattern 0"
  | place n => "error parsing pattern " ++ toString n

/-- Why a list of globs cannot be used. -/
inductive ListFault
  /-- A glob of the list, as it was written there, cannot be read. -/
  | refused (item : String) (cause : Refusal)
  | nested (cause : NestingFault)
  deriving DecidableEq, Repr

/-- The text of a fault in a list; `kind` tells what its globs are for. -/
def ListFault.message (kind : String) : ListFault → String
  | refused item cause => "invalid " ++ kind ++ " pattern `" ++ item ++ "`: " ++ cause.message
  | nested cause => "failed to build " ++ kind ++ " rules: " ++ cause.message

end Expunge.Glob
