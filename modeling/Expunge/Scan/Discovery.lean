import Expunge.Fault
import Expunge.Files.Access
import Expunge.Glob.Ignore
import Expunge.Glob.Selection
import Expunge.Report.Basic
import Expunge.Scan.Walk
import Expunge.Settings.Basic

/-!
# Discovery of the files to process

The files below a root that an include pattern selects and that neither the ignore file of the
root nor the ignore lines of the settings hide, directories on the way counted. They come in the
order of their names, whatever the order of listing.
-/

namespace Expunge
set_option autoImplicit false
open Expunge.Path

/-- The files that were found below a root, and the directories that could not be walked. -/
structure Discovery where
  files : List RelPath
  errors : List (RelPath × WalkFault)

/-- The fault of a directory below a root. -/
def WalkFault.toFault (root : String) (rel : RelPath) : WalkFault → Fault
  | cycle => .linkCycle (below root rel)
  | io cause => .io cause

/-- The errors of a discovery as they are reported. -/
def Discovery.fileErrors (d : Discovery) (root : String) : List FileError :=
  d.errors.map fun (rel, fault) => ⟨below root rel, (fault.toFault root rel).message⟩

/-- The path is made of dots and separators, with a dot at its start. -/
def spellsHere (path : List Char) : Bool :=
  path.head? = some '.' && (path.splitOn '/').all fun s => s = [] || s = ['.']

/-- The text of a file below a root that ignore lines are matched against: the names below the
root, but a root that is spelled as dots alone, twice or more often, keeps all but the first. -/
def ignoreText (root : String) (rel : RelPath) : String :=
  match root.toList with
  | '.' :: '/' :: rest => if spellsHere rest then below (String.ofList rest) rel else below "" rel
  | _ => below "" rel

/-- The rules of the ignore file of a root, if it has one that can be read. -/
def ignoreRulesAt (t : FileTree) (root : String) : List Glob.IgnoreRule :=
  match t.readBytes (join root ".gitignore") with
  | .ok bytes => Glob.rulesOfFile bytes
  | .error _ => []

/-- What is scanned below a root, by patterns and rules that could be read. -/
def scopeOf (t : FileTree) (root : String) (includes : Glob.Selection)
    (fileRules excludes : List Glob.IgnoreRule) : Scope where
  tree := t
  root := root
  selects rel := includes.contains (below "" rel)
  ignores rel isDirectory :=
    let text := (ignoreText root rel).toUTF8.toList
    Glob.ignores fileRules text isDirectory || Glob.ignores excludes text isDirectory

/-- Reads the patterns of the settings and the ignore file of the root. -/
def scope? (t : FileTree) (root : String) (scan : ScanSettings) : Except SettingsFault Scope :=
  match Glob.Selection.ofPatterns scan.includes with
  | .error cause => .error (.badIncludes cause)
  | .ok includes =>
    match Glob.rulesOfSettings scan.excludes with
    | .error cause => .error (.badExcludes cause)
    | .ok excludes =>
      .ok (scopeOf t root includes (if scan.disableGitignore then [] else ignoreRulesAt t root)
        excludes)

/-- The result of a walk, the files in the order of their names. -/
def Scope.discover (s : Scope) : Discovery :=
  let w := s.walk
  ⟨w.files.mergeSort RelPath.precedes, w.errors⟩

/-- Finds the files to process. -/
def discover (t : FileTree) (root : String) (scan : ScanSettings) :
    Except SettingsFault Discovery :=
  (scope? t root scan).map Scope.discover

/-- Sorting keeps the files that were picked. -/
theorem mem_files_discover {s : Scope} {rel : RelPath} :
    rel ∈ s.discover.files ↔ rel ∈ s.walk.files := by
  simp [Scope.discover, List.mem_mergeSort]

end Expunge
