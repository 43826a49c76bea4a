import Expunge.Files.IoError
import Expunge.Glob.Fault

/-!
# Faults

Everything that can stop a run, or one file of it: the cause as data, and the text, the code and
the advice that a user is shown for it.
-/

namespace Expunge
set_option autoImplicit false

/-- Why settings cannot be used. -/
inductive SettingsFault
  /-- The text is not TOML, or a value has the wrong type. -/
  | malformed
  /-- A marker or a comment token is empty. -/
  | emptyToken (key : String)
  /-- The include patterns cannot be used. -/
  | badIncludes (cause : Glob.ListFault)
  /-- The ignore lines cannot be used. -/
  | badExcludes (cause : Glob.ListFault)
  deriving DecidableEq, Repr

/-- The text of a fault of the settings. -/
def SettingsFault.message : SettingsFault → String
  | malformed => "<toml>"
  | emptyToken key => "`" ++ key ++ "` must not be empty"
  | badIncludes cause => cause.message "include"
  | badExcludes cause => cause.message "exclude"

/-- What stops a run or the handling of a file. -/
inductive Fault
  | io (cause : IoError)
  | invalidRoot (path : String)
  | settings (cause : SettingsFault)
  | unreadable (path : String) (cause : IoError)
  | unwritable (path : String) (cause : IoError)
  | tooLarge (path : String) (size limit : Nat)
  | linkCycle (path : String)
  deriving DecidableEq, Repr

namespace Fault

/-- The text of a fault. -/
def message : Fault → String
  | io cause => cause.message
  | invalidRoot path => "`" ++ path ++ "` is not a valid directory"
  | settings cause => "failed to parse config file: " ++ cause.message
  | unreadable path cause => "failed to read `" ++ path ++ "`: " ++ cause.message
  | unwritable path cause => "failed to write `" ++ path ++ "`: " ++ cause.message
  | tooLarge path size limit =>
    "file too large: `" ++ path ++ "` is " ++ toString size ++ " bytes (limit: " ++ toString limit ++
      " bytes)"
  | linkCycle path => "symlink cycle detected at: `" ++ path ++ "`"

/-- The code under which a fault is shown. -/
def code : Fault → String
  | io _ => "ossify::io_error"
  | invalidRoot _ => "ossify::invalid_root"
  | settings _ => "ossify::config_parse"
  | unreadable .. => "ossify::read_error"
  | unwritable .. => "ossify::write_error"
  | tooLarge .. => "ossify::file_too_large"
  | linkCycle _ => "ossify::symlink_cycle"

/-- What a user can do about a fault. -/
def help? : Fault → Option String
  | invalidRoot _ => some "pass the path of an existing source directory, e.g. `ossify ./crates`"
  | settings _ =>
    some "check that ossify.toml is valid TOML with [markers], [comments] and/or [scan] sections"
  | tooLarge .. => some "increase `max_file_size` under [scan] in ossify.toml or exclude this file"
  | linkCycle _ => some "remove the circular symlink or exclude this path"
  | io _ | unreadable .. | unwritable .. => none

end Fault
end Expunge
