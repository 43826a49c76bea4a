import Expunge.Proofs.Scan.Picks
import Expunge.Run

/-!
# A run step by step

A run processes what it discovers (`run_eq_ok_iff`), the first file first and each in the tree that
the files before it left. What it tells grows by one report for each file
(`exists_reports_treatFiles`).
-/

namespace Expunge
set_option autoImplicit false
open Expunge.Path

variable {t : FileTree} {s : Settings} {mode : RunMode} {paths : List String} {path root : String}
  {summary : Summary} {after : FileTree}

/-! ### One file and the others -/

theorem treatFiles_cons (start : Summary × FileTree) :
    treatFiles s mode (path :: paths) start =
      treatFiles s mode paths (start.1.add (treatFile start.2 path s mode).1,
        (treatFile start.2 path s mode).2) := by
  rw [treatFiles, List.foldl_cons]
  rfl

/-- The last file is processed after the others. -/
theorem treatFiles_concat (start : Summary × FileTree) :
    treatFiles s mode (paths ++ [path]) start =
      let done := treatFiles s mode paths start
      let last := treatFile done.2 path s mode
      (done.1.add last.1, last.2) := by
  rw [treatFiles, List.foldl_append]
  rfl

/-- Processing files adds one report for each, in order, and takes none back. -/
theorem exists_forall₂_treatFiles (s : Settings) (mode : RunMode) (paths : List String)
    (start : Summary × FileTree) :
    ∃ rs : List FileReport, (treatFiles s mode paths start).1 = rs.foldl Summary.add start.1 ∧
      List.Forall₂ (fun path r => ∃ t, r = (treatFile t path s mode).1) paths rs := by
  induction paths generalizing start with
  | nil => exact ⟨[], rfl, .nil⟩
  | cons path paths ih =>
    obtain ⟨rs, e, each⟩ := ih (start.1.add (treatFile start.2 path s mode).1,
      (treatFile start.2 path s mode).2)
    exact ⟨_ :: rs, e, .cons ⟨start.2, rfl⟩ each⟩

/-- What a run tells is what it told at the start with reports added. -/
theorem exists_reports_treatFiles (s : Settings) (mode : RunMode) (paths : List String)
    (start : Summary × FileTree) :
    ∃ rs : List FileReport, (treatFiles s mode paths start).1 = rs.foldl Summary.add start.1 := by
  obtain ⟨rs, e, -⟩ := exists_forall₂_treatFiles s mode paths start
  exact ⟨rs, e⟩

/-- A dry run reads every file in the first tree. -/
theorem treatFiles_dry_eq (dry : mode.dryRun = true) (start : Summary) :
    treatFiles s mode paths (start, t) =
      ((paths.map fun path => (treatFile t path s mode).1).foldl Summary.add start, t) := by
  induction paths generalizing start with
  | nil => rfl
  | cons path paths ih =>
    rw [treatFiles_cons, treatFile_dry t path s mode dry, ih]
    rfl

/-! ### Whole runs -/

/-- A run that is not refused processes what is discovered. -/
theorem run_eq_ok_iff :
    run t root s mode = (.ok summary, after) ↔
      t.isDirectory root = true ∧ ∃ found, discover t root s.scan = .ok found ∧
        treatFiles s mode (found.files.map (below root))
          ({ dryRun := mode.dryRun, errors := found.fileErrors root }, t) = (summary, after) := by
  unfold run
  split
  · rename_i here
    cases discovered : discover t root s.scan with
    | error fault => simp
    | ok found => simp [here, Prod.ext_iff]
  · rename_i elsewhere
    simp [elsewhere]

/-- A run is refused for its root, or else for its patterns, whatever its mode, and then it has left
the tree alone. -/
theorem run_eq_error_iff {fault : Fault} : run t root s mode = (.error fault, after) ↔
    (t.isDirectory root = false ∧ fault = .invalidRoot root ∨
      t.isDirectory root = true ∧ ∃ cause, discover t root s.scan = .error cause ∧
        fault = .settings cause) ∧ after = t := by
  unfold run
  split
  · rename_i here
    cases discovered : discover t root s.scan <;> simp [here, eq_comm]
  · rename_i elsewhere
    simp [elsewhere, eq_comm]

/-- A dry run leaves the tree as it is. -/
theorem tree_of_run_dry (dry : mode.dryRun = true) : (run t root s mode).2 = t := by
  cases done : run t root s mode with
  | mk result after =>
    cases result with
    | error fault => exact (run_eq_error_iff.1 done).2
    | ok summary =>
      obtain ⟨-, found, -, processed⟩ := run_eq_ok_iff.1 done
      exact (congrArg Prod.snd processed).symm.trans (treatFiles_dry s mode _ _ dry)

/-- A run over files that a walk picks in the order of their names, without an error. -/
theorem run_eq_of_walk {files : List RelPath} (here : t.isDirectory root = true)
    (walked : ((scope? t root s.scan).map Scope.walk).toOption.map (fun w => (w.files, w.errors)) =
      some (files, []))
    (sorted : files.Pairwise (RelPath.precedes · ·)) (spelled : files.map (below root) = paths)
    (told : (treatFiles s mode paths ({ dryRun := mode.dryRun }, t)).1 = summary)
    (left : (treatFiles s mode paths ({ dryRun := mode.dryRun }, t)).2 = after) :
    run t root s mode = (.ok summary, after) :=
  run_eq_ok_iff.2 ⟨here, _, discover_eq_of_walk walked sorted, spelled ▸ Prod.ext told left⟩

/-- A run on a directory with settings that can be used is not refused. -/
theorem isOk_run (here : t.isDirectory root = true) (made : (scope? t root s.scan).isOk = true) :
    (run t root s mode).1.isOk = true := by
  obtain ⟨scope, made⟩ := exists_of_isOk made
  rw [run, if_pos here, discover, made]
  rfl

/-- The kind of a run is kept, whatever is added. -/
theorem Summary.foldl_add_dryRun (rs : List FileReport) (start : Summary) (dry : Bool) :
    rs.foldl add { start with dryRun := dry } = { rs.foldl add start with dryRun := dry } := by
  induction rs generalizing start with
  | nil => rfl
  | cons r rs ih =>
    have one : add { start with dryRun := dry } r = { add start r with dryRun := dry } := by
      cases told : r.outcome <;> simp [add, count, told]
    rw [List.foldl_cons, List.foldl_cons, one, ih]

end Expunge
