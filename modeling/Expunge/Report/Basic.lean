import Expunge.Content.Decision

/-!
# Reports

What is told about each processed file, and the summary of a run: counters, the reports in
processing order, and the errors. `Summary.add` adds one report; its lemmas say what it does to
each part. The counters are machine words, which start again from zero where they overflow.
-/

namespace Expunge
set_option autoImplicit false

/-- The content of a file before and after its snippets were removed. -/
structure ContentChange where
  before : String
  after : String
  deriving DecidableEq, Repr, Inhabited

/-- What is told about one processed file. -/
structure FileReport where
  /-- The path of the file. -/
  file : String
  outcome : Outcome
  /-- The outcome that was meant, where carrying it out failed. -/
  intended : Option Outcome := none
  /-- The snippets that were, or would be, removed. -/
  spans : List Span := []
  /-- The change of content, where it was asked for. -/
  change : Option ContentChange := none
  deriving DecidableEq, Repr, Inhabited

/-- A file or directory that could not be handled, and why. -/
structure FileError where
  file : String
  message : String
  deriving DecidableEq, Repr, Inhabited

/-- The error that a report stands for, if it does. -/
def FileReport.error? (r : FileReport) : Option FileError :=
  match r.outcome with
  | .error message => some ⟨r.file, message⟩
  | _ => none

/-- The counters, reports and errors of a run. -/
structure Summary where
  dryRun : Bool := false
  filesScanned : UInt64 := 0
  filesRemoved : UInt64 := 0
  filesWithSnippetsRemoved : UInt64 := 0
  snippetsRemoved : UInt64 := 0
  /-- One report for each processed file, in order. -/
  reports : List FileReport := []
  /-- The errors of discovery and of single files. -/
  errors : List FileError := []
  deriving DecidableEq, Repr, Inhabited

namespace Summary

/-- Adds what an outcome counts. -/
def count (s : Summary) : Outcome → Summary
  | .removed => { s with filesRemoved := s.filesRemoved + 1 }
  | .snippetsRemoved n =>
    { s with
      filesWithSnippetsRemoved := s.filesWithSnippetsRemoved + 1
      snippetsRemoved := s.snippetsRemoved + .ofNat n }
  | .unchanged | .error _ => s

/-- Adds the report of one file. -/
def add (s : Summary) (r : FileReport) : Summary :=
  { s.count r.outcome with
    filesScanned := s.filesScanned + 1
    reports := s.reports ++ [r]
    errors := s.errors ++ r.error?.toList }

/-- Nothing went wrong. -/
def isOk (s : Summary) : Bool := s.errors.isEmpty

/-- The reports of files that were, or would be, deleted or replaced. -/
def changed (s : Summary) : List FileReport := s.reports.filter (·.outcome.isChange)

theorem isOk_iff {s : Summary} : s.isOk = true ↔ s.errors = [] := by simp [isOk]

@[simp] theorem reports_add (s : Summary) (r : FileReport) :
    (s.add r).reports = s.reports ++ [r] := rfl

@[simp] theorem errors_add (s : Summary) (r : FileReport) :
    (s.add r).errors = s.errors ++ r.error?.toList := rfl

@[simp] theorem filesScanned_add (s : Summary) (r : FileReport) :
    (s.add r).filesScanned = s.filesScanned + 1 := rfl

/-- Adding a report keeps the kind of the run. -/
@[simp] theorem dryRun_add (s : Summary) (r : FileReport) : (s.add r).dryRun = s.dryRun := by
  cases h : r.outcome <;> simp [add, count, h]

/-- Adding every report of a list appends the list. -/
theorem reports_foldl_add (s : Summary) (rs : List FileReport) :
    (rs.foldl add s).reports = s.reports ++ rs := by
  induction rs generalizing s with
  | nil => simp
  | cons r rs ih => simp [ih]

/-- Adding every report of a list appends the errors that they stand for. -/
theorem errors_foldl_add (s : Summary) (rs : List FileReport) :
    (rs.foldl add s).errors = s.errors ++ rs.flatMap (·.error?.toList) := by
  induction rs generalizing s with
  | nil => simp
  | cons r rs ih => simp [ih]

end Summary
end Expunge
