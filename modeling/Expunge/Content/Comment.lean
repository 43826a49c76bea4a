import Expunge.Settings.Basic
import Expunge.Text.Blank
import Expunge.Text.Lines
import Expunge.Text.Search

/-!
# The leading comment of a file

The comment that opens a file, blanks around the whole content left aside: a block comment up to
the first line that closes it, or a run of line comments with the blank lines between them. A
file whose leading comment holds the licence marker is proprietary as a whole.
-/

namespace Expunge
set_option autoImplicit false
open Text

/-- How a comment is written. -/
inductive CommentStyle
  | block
  | line
  deriving DecidableEq, Repr

/-- The comment at the start of a file, as its lines. -/
structure LeadingComment where
  style : CommentStyle
  lines : List Line
  deriving DecidableEq, Repr

namespace LeadingComment

/-- The lines of the comment as one text. -/
def text (c : LeadingComment) : List Char := unlines c.lines

/-- The token occurs in the comment. -/
def contains (c : LeadingComment) (token : String) : Bool := occursIn token.toList c.text

end LeadingComment

namespace CommentTokens

/-- The line, blanks aside, is empty or a line comment. -/
def continuesRun (t : CommentTokens) (l : Line) : Bool :=
  (trim l).isEmpty || startsWith t.line.toList (trim l)

/-- The comment at the start of a text without blanks around it. -/
def commentOf (t : CommentTokens) (ls : List Line) : Option LeadingComment :=
  let first := trim (ls.headD [])
  if startsWith t.blockOpen.toList first then
    some ⟨.block, takeThrough (occursIn t.blockClose.toList) ls⟩
  else if startsWith t.line.toList first then
    some ⟨.line, ls.takeWhile t.continuesRun⟩
  else none

/-- The comment at the start of a file. -/
def leadingComment (t : CommentTokens) (content : String) : Option LeadingComment :=
  t.commentOf (lines (trim content.toList))

/-- A file has no leading comment exactly when its first line opens neither kind. -/
theorem commentOf_eq_none_iff {t : CommentTokens} {ls : List Line} :
    t.commentOf ls = none ↔ ¬ t.blockOpen.toList <+: trim (ls.headD []) ∧
      ¬ t.line.toList <+: trim (ls.headD []) := by
  simp only [commentOf, ← startsWith_iff]
  split
  · simp_all
  · split <;> simp_all

end CommentTokens

/-- The leading comment of the file holds the licence marker. -/
def isProprietary (m : Markers) (t : CommentTokens) (content : String) : Bool :=
  (t.leadingComment content).any (·.contains m.license)

theorem isProprietary_iff {m : Markers} {t : CommentTokens} {content : String} :
    isProprietary m t content = true ↔
      ∃ c, t.leadingComment content = some c ∧ m.license.toList <:+: c.text := by
  simp [isProprietary, LeadingComment.contains, Option.any_eq_true, occursIn_iff]

end Expunge
