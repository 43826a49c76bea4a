import Expunge.Files.Access
import Expunge.Settings.Decode

/-!
# The settings file of a directory

The first of the known names that is a file holds the settings of a directory. A directory without
such a file has the default settings; a file that cannot be read or used is an error, and no other
file is tried.
-/

namespace Expunge.Settings
set_option autoImplicit false
open Expunge.Path

/-- The path of the settings file of a directory. -/
def fileOf? (t : FileTree) (root : String) : Option String :=
  (fileNames.map (join root)).find? t.isFile

/-- Reads a settings file. -/
def loadFrom (t : FileTree) (path : String) : Except Fault Settings := do
  let text ← (t.readText path).mapError Fault.io
  (parse text).mapError Fault.settings

/-- Reads the settings file of a directory, if it has one. -/
def load? (t : FileTree) (root : String) : Except Fault (Option Settings) :=
  match fileOf? t root with
  | none => .ok none
  | some path => (loadFrom t path).map some

/-- The settings of a directory. -/
def loadOrDefault (t : FileTree) (root : String) : Except Fault Settings :=
  (load? t root).map (·.getD {})

end Expunge.Settings
