import Expunge.Content.Decision
import Expunge.Files.Access
import Expunge.Report.Basic
import Expunge.Scan.Discovery

/-!
# Runs

A run decides on every discovered file, carries the decisions out one after the other, and reports
each. A dry run reports the same and changes nothing. Only a root that is no directory and
settings that cannot be used stop a run; what goes wrong with one file is reported for it alone.
-/

namespace Expunge
set_option autoImplicit false
open Expunge.Path

/-- How decisions are carried out. -/
structure RunMode where
  /-- Change nothing, and report what would be done. -/
  dryRun : Bool := false
  /-- Keep the content before and after in the report of a replacement. -/
  keepsContent : Bool := false
  deriving DecidableEq, Repr, Inhabited

/-- Carries a decision on a file out. -/
def Decision.perform (d : Decision) (t : FileTree) (path : String) : Except Fault FileTree :=
  match d with
  | keep => .ok t
  | delete => (t.remove path).mapError (.unwritable path)
  | replace content _ _ => (t.write path content).mapError (.unwritable path)

/-- Carries a decision out, unless the run is dry. -/
def Decision.apply (d : Decision) (dryRun : Bool) (t : FileTree) (path : String) :
    Except Fault FileTree :=
  if dryRun then .ok t else d.perform t path

/-- Reads a source file, if it is not larger than `limit`. -/
def FileTree.readWithin (t : FileTree) (path : String) (limit : Nat) : Except Fault String := do
  let size ← (t.sizeOf path).mapError (.unreadable path)
  if limit < size then .error (.tooLarge path size limit)
  else (t.readText path).mapError (.unreadable path)

/-- The change of content that a decision makes, if it is to be captured. -/
def Decision.change? (d : Decision) (mode : RunMode) (content : String) :
    Option ContentChange :=
  match d with
  | replace left _ _ => if mode.keepsContent then some ⟨content, left⟩ else none
  | keep | delete => none

/-- Decides on a content that was read from a file, and carries the decision out. -/
def treatContent (t : FileTree) (path content : String) (s : Settings) (mode : RunMode) :
    FileReport × FileTree :=
  let d := Decision.ofContent s.markers s.comments content
  let change := d.change? mode content
  match d.apply mode.dryRun t path with
  | .ok t' => (⟨path, d.outcome, none, d.spans, change⟩, t')
  | .error fault => (⟨path, .error fault.message, some d.outcome, d.spans, change⟩, t)

/-- Reads a file, decides on it and carries the decision out. -/
def treatFile (t : FileTree) (path : String) (s : Settings) (mode : RunMode) :
    FileReport × FileTree :=
  match t.readWithin path s.scan.maxFileSize with
  | .error fault => ({ file := path, outcome := .error fault.message }, t)
  | .ok content => treatContent t path content s mode

/-- Processes files one after the other. -/
def treatFiles (s : Settings) (mode : RunMode) (paths : List String)
    (start : Summary × FileTree) : Summary × FileTree :=
  paths.foldl (fun (summary, t) path =>
    let (report, t) := treatFile t path s mode
    (summary.add report, t)) start

/-- Processes every file that is found below a root: what is told, or why nothing was done, and the
tree afterwards. -/
def run (t : FileTree) (root : String) (s : Settings) (mode : RunMode) :
    Except Fault Summary × FileTree :=
  if t.isDirectory root then
    match discover t root s.scan with
    | .error fault => (.error (.settings fault), t)
    | .ok found =>
      let (summary, after) := treatFiles s mode (found.files.map (below root))
        ({ dryRun := mode.dryRun, errors := found.fileErrors root }, t)
      (.ok summary, after)
  else (.error (.invalidRoot root), t)

/-- A dry run leaves a file as it is. -/
theorem treatFile_dry (t : FileTree) (path : String) (s : Settings) (mode : RunMode)
    (dry : mode.dryRun = true) : (treatFile t path s mode).2 = t := by
  unfold treatFile treatContent
  split
  · rfl
  · simp [Decision.apply, dry]

/-- A dry run leaves the tree as it is. -/
theorem treatFiles_dry (s : Settings) (mode : RunMode) (paths : List String)
    (start : Summary × FileTree) (dry : mode.dryRun = true) :
    (treatFiles s mode paths start).2 = start.2 := by
  induction paths generalizing start with
  | nil => rfl
  | cons path paths ih =>
    rw [treatFiles, List.foldl_cons]
    exact (ih _).trans (treatFile_dry start.2 path s mode dry)

end Expunge
