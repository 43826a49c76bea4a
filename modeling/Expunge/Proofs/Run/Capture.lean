import Expunge.Proofs.Run.Steps

/-!
# Keeping contents

A run that keeps the contents of the files that it rewrites does and tells what a run without them
does and tells, but for the contents (`run_withoutChanges`): they are put into a report when the
decision on its file has been carried out, and nothing looks at them again.
-/

namespace Expunge
set_option autoImplicit false

variable {t : FileTree} {s : Settings} {path content root : String} {paths : List String}
  {dry keeps : Bool}

/-- A report without the contents that it keeps. -/
def FileReport.withoutChange (r : FileReport) : FileReport := { r with change := none }

/-- A summary without the contents that its reports keep. -/
def Summary.withoutChanges (s : Summary) : Summary :=
  { s with reports := s.reports.map FileReport.withoutChange }

/-- The contents that a report keeps count for nothing. -/
theorem Summary.withoutChanges_add (s : Summary) (r : FileReport) :
    (s.add r).withoutChanges = s.withoutChanges.add r.withoutChange := by
  cases outcome : r.outcome <;>
    simp [withoutChanges, add, count, FileReport.withoutChange, FileReport.error?, outcome]

/-- Without contents there are none to take out. -/
theorem Decision.change?_quiet (d : Decision) (dry : Bool) (content : String) :
    d.change? ⟨dry, false⟩ content = none := by
  cases d <;> rfl

/-- A content is treated the same, whether it is kept or not. -/
theorem treatContent_withoutChange (t : FileTree) (path content : String) (s : Settings)
    (dry keeps : Bool) :
    (treatContent t path content s ⟨dry, keeps⟩).map FileReport.withoutChange id =
      treatContent t path content s ⟨dry, false⟩ := by
  simp only [treatContent, Decision.change?_quiet]
  cases done : (Decision.ofContent s.markers s.comments content).apply dry t path <;> rfl

theorem treatFile_withoutChange (t : FileTree) (path : String) (s : Settings) (dry keeps : Bool) :
    (treatFile t path s ⟨dry, keeps⟩).map FileReport.withoutChange id =
      treatFile t path s ⟨dry, false⟩ := by
  cases read : t.readWithin path s.scan.maxFileSize with
  | error fault =>
    simp only [treatFile, read]
    rfl
  | ok content =>
    simp only [treatFile, read]
    exact treatContent_withoutChange t path content s dry keeps

/-- Files are processed the same, whether their contents are kept or not. -/
theorem treatFiles_withoutChanges (s : Settings) (dry keeps : Bool) (paths : List String)
    (start : Summary × FileTree) :
    (treatFiles s ⟨dry, keeps⟩ paths start).map Summary.withoutChanges id =
      treatFiles s ⟨dry, false⟩ paths (start.map Summary.withoutChanges id) := by
  -- the trees stay equal from file to file, so each file is read alike by both runs
  induction paths generalizing start with
  | nil => rfl
  | cons path paths ih =>
    have one := treatFile_withoutChange start.2 path s dry keeps
    rw [treatFiles_cons, treatFiles_cons, ih]
    simp only [Prod.map, id, Summary.withoutChanges_add] at one ⊢
    rw [← one]

/-- **Kept contents change nothing else.** A run that keeps contents leaves the same tree as one that
does not, and it fails alike or tells the same, the contents aside. -/
theorem run_withoutChanges (t : FileTree) (root : String) (s : Settings) (dry keeps : Bool) :
    (run t root s ⟨dry, keeps⟩).map (Except.map Summary.withoutChanges) id =
      run t root s ⟨dry, false⟩ := by
  unfold run
  split
  · cases discovered : discover t root s.scan with
    | error fault => rfl
    | ok found =>
      exact congrArg (Prod.map Except.ok id) (treatFiles_withoutChanges s dry keeps _ _)
  · rfl

end Expunge
