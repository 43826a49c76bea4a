import Expunge.Report.Basic
import Expunge.Report.Datum

/-!
# Summaries as JSON

The fields of a summary in their order. The intended outcome and the spans of a report are left
out where there are none, and a captured change is never written.
-/

namespace Expunge
set_option autoImplicit false

/-- An outcome, tagged by what was done. -/
def Outcome.toDatum : Outcome → Datum
  | removed => .record [("action", .text "removed")]
  | snippetsRemoved count =>
    .record [("action", .text "snippets_removed"), ("count", .number count)]
  | unchanged => .record [("action", .text "unchanged")]
  | error message => .record [("action", .text "error"), ("message", .text message)]

/-- A span by its lines. -/
def Span.toDatum (s : Span) : Datum :=
  .record [("start_line", .number s.startLine), ("end_line", .number s.endLine),
    ("terminated", .flag s.terminated)]

/-- A report without its change. -/
def FileReport.toDatum (r : FileReport) : Datum :=
  .record ([("file", .text r.file), ("outcome", r.outcome.toDatum)] ++
    (r.intended.map fun o => ("intended", o.toDatum)).toList ++
    (if r.spans.isEmpty then [] else [("spans", .list (r.spans.map Span.toDatum))]))

/-- An error by its file and text. -/
def FileError.toDatum (e : FileError) : Datum :=
  .record [("file", .text e.file), ("message", .text e.message)]

/-- A whole summary. -/
def Summary.toDatum (s : Summary) : Datum :=
  .record [("dry_run", .flag s.dryRun), ("files_scanned", .number s.filesScanned.toNat),
    ("files_removed", .number s.filesRemoved.toNat),
    ("files_with_snippets_removed", .number s.filesWithSnippetsRemoved.toNat),
    ("snippets_removed", .number s.snippetsRemoved.toNat),
    ("reports", .list (s.reports.map FileReport.toDatum)),
    ("errors", .list (s.errors.map FileError.toDatum))]

/-- A summary as indented JSON. -/
def Summary.toJson (s : Summary) : String := s.toDatum.toText

end Expunge
