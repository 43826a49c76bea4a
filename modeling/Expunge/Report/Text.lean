import Expunge.Diff.Compact
import Expunge.Files.Path
import Expunge.Report.Basic

/-!
# Summaries as text

What a user reads after a run: the changed files, on demand with the lines and the difference of
each, then the totals and the errors. Paths are shown from the root.
-/

namespace Expunge
set_option autoImplicit false
open Expunge.Path

/-- How words are set off. -/
inductive Emphasis
  | red
  | green
  | yellow
  | bold
  deriving DecidableEq, Repr

namespace Emphasis

/-- The code that starts an emphasis. -/
def startCode : Emphasis → String
  | red => "31"
  | green => "32"
  | yellow => "33"
  | bold => "1"

/-- The code that ends an emphasis. -/
def endCode : Emphasis → String
  | red | green | yellow => "39"
  | bold => "0"

/-- A text with an emphasis, where emphasis is shown. -/
def mark (e : Emphasis) (shown : Bool) (s : String) : String :=
  if shown then "\x1B[" ++ e.startCode ++ "m" ++ s ++ "\x1B[" ++ e.endCode ++ "m" else s

end Emphasis

/-- How a summary is shown. -/
structure TextStyle where
  /-- Show each changed file and its spans. -/
  verbose : Bool := false
  /-- Show emphasis. -/
  colored : Bool := false
  deriving DecidableEq, Repr

/-- A line of text with its end. -/
def line (s : String) : String := s ++ "\n"

/-- Texts one after the other. -/
def texts (ss : List String) : String := String.join ss

namespace TextStyle

/-- What was done to a file. -/
def describeChange (dryRun : Bool) (name : String) : Outcome → String
  | .removed => line (done ++ " file: " ++ name)
  | .snippetsRemoved count => line (done ++ " " ++ toString count ++ " snippet(s) from: " ++ name)
  | .unchanged | .error _ => ""
where
  /-- The word for a removal. -/
  done : String := if dryRun then "Would remove" else "Removed"

/-- The lines of a span. -/
def describeSpan (s : Span) : String :=
  line ("    lines " ++ toString s.startLine ++ "-" ++ toString s.endLine ++
    if s.terminated then "" else " (unterminated)")

/-- A line with an end. -/
def ended (l : Diff.TextLine) : String :=
  String.ofList (if l.getLast? = some '\n' ∨ l.getLast? = some '\r' then l else l ++ ['\n'])

/-- A line of a difference. -/
def describeDifference (style : TextStyle) : Diff.Change → String
  | .keep l => "   " ++ ended l
  | .delete l => "  " ++ Emphasis.red.mark style.colored ("-" ++ ended l)
  | .insert l => "  " ++ Emphasis.green.mark style.colored ("+" ++ ended l)

/-- The difference that a replacement makes. -/
def describeContent (style : TextStyle) (c : ContentChange) : String :=
  texts ((Diff.compare c.before c.after).map style.describeDifference) ++ "\n"

/-- The report of a changed file. -/
def describeReport (style : TextStyle) (dryRun : Bool) (root : String) (r : FileReport) : String :=
  (if style.verbose || dryRun then describeChange dryRun (relativeTo root r.file) r.outcome else "") ++
    (if style.verbose then texts (r.spans.map describeSpan) else "") ++
    (r.change.map style.describeContent).getD ""

/-- What an outcome would have been. -/
def describeIntended : Outcome → String
  | .removed => "removed"
  | .snippetsRemoved count => "stripped of " ++ toString count ++ " snippet(s)"
  | .unchanged => "left unchanged"
  | .error message => message

/-- The errors of a run, and what was meant for the files that could not be changed. -/
def describeErrors (style : TextStyle) (root : String) (s : Summary) : String :=
  if s.errors.isEmpty then ""
  else
    line ("- " ++ Emphasis.red.mark style.colored (toString s.errors.length ++ " errors occurred:")) ++
      texts (s.errors.map fun e => line ("  " ++ relativeTo root e.file ++ ": " ++ e.message)) ++
      texts (s.reports.map fun r =>
        (r.intended.map fun o =>
          line ("  " ++ relativeTo root r.file ++ " was meant to be " ++ describeIntended o)).getD "")

/-- The totals of a run. -/
def describeTotals (style : TextStyle) (root : String) (s : Summary) : String :=
  let verb := if s.dryRun then "would be" else "were"
  "\n" ++ line (Emphasis.bold.mark style.colored "Summary:") ++
    line ("- " ++ toString s.filesRemoved ++ " files " ++ verb ++ " completely removed") ++
    line ("- " ++ toString s.snippetsRemoved ++ " proprietary snippets " ++ verb ++
      " removed from " ++ toString s.filesWithSnippetsRemoved ++ " files") ++
    style.describeErrors root s ++
    if s.dryRun then "\nRun without --dry-run to apply changes\n" else ""

/-- What is shown before a run. -/
def describeStart (style : TextStyle) (root : String) (dryRun : Bool) : String :=
  line ("Processing files in: " ++ root) ++
    (if dryRun then
      line (Emphasis.yellow.mark style.colored "DRY RUN MODE - No changes will be made") else "") ++
    "\n"

/-- What is shown after a run. -/
def describeSummary (style : TextStyle) (root : String) (s : Summary) : String :=
  if s.filesScanned = 0 && s.errors.isEmpty then
    line "No matching files found in the specified directory"
  else
    line ("Found " ++ toString s.filesScanned ++ " file(s)") ++ "\n" ++
      texts (s.changed.map (style.describeReport s.dryRun root)) ++ style.describeTotals root s

end TextStyle
end Expunge
