import Expunge.Settings.Basic
import Expunge.Text.Lines
import Expunge.Text.Search

/-!
# Snippets

The scan for snippets cuts a file into pieces: single lines outside every snippet, and snippets
from an opening line to the first line, the opening one included, that holds the closing marker.
Snippets do not nest, and one that is never closed runs to the end. The pieces hold every line
once (`flatMap_lines_pieces`); excision leaves out the snippets that name the licence and keeps
every other line as it is.
-/

namespace Expunge
set_option autoImplicit false
open Text

/-- A removed snippet by the numbers of its first and last line, counted from 1. -/
structure Span where
  startLine : Nat
  endLine : Nat
  /-- The last line holds the closing marker. -/
  terminated : Bool
  deriving DecidableEq, Repr, Inhabited

/-- A part of a file as the scan for snippets sees it. -/
inductive Piece
  /-- A line outside every snippet. -/
  | plain (line : Line)
  /-- A snippet, and whether it was closed. -/
  | snippet (body : List Line) (closed : Bool)
  deriving DecidableEq, Repr

namespace Piece

/-- The lines of a piece. -/
def lines : Piece → List Line
  | plain l => [l]
  | snippet body _ => body

/-- A snippet that names the licence. -/
def licensed (license : List Char) : Piece → Bool
  | plain _ => false
  | snippet body _ => occursIn license (unlines body)

/-- The snippet was closed. -/
def closed : Piece → Bool
  | plain _ => true
  | snippet _ closed => closed

end Piece

/-- The pieces of a file. -/
def pieces (opens closes : Line → Bool) : List Line → List Piece
  | [] => []
  | l :: ls =>
    if opens l then
      .snippet (takeThrough closes (l :: ls)) ((l :: ls).any closes) ::
        pieces opens closes (dropThrough closes (l :: ls))
    else .plain l :: pieces opens closes ls
termination_by ls => ls.length
decreasing_by
  · exact length_dropThrough_cons closes l ls
  · simp

/-- The pieces of a file hold its lines, each once and in order. -/
theorem flatMap_lines_pieces (opens closes : Line → Bool) (ls : List Line) :
    (pieces opens closes ls).flatMap Piece.lines = ls := by
  fun_induction pieces opens closes ls with
  | case1 => rfl
  | case2 l ls _ ih => simp [Piece.lines, ih]
  | case3 l ls _ ih => simp [Piece.lines, ih]

/-- The spans of the licensed pieces, if the first piece starts at the line `first`. -/
def spansFrom (license : List Char) (first : Nat) : List Piece → List Span
  | [] => []
  | p :: ps =>
    let rest := spansFrom license (first + p.lines.length) ps
    if p.licensed license then ⟨first, first + p.lines.length - 1, p.closed⟩ :: rest else rest

/-- The lines outside the licensed pieces. -/
def keptLines (license : List Char) (ps : List Piece) : List Line :=
  (ps.filter (!·.licensed license)).flatMap Piece.lines

/-- There is a span for each licensed piece. -/
theorem length_spansFrom (license : List Char) (first : Nat) (ps : List Piece) :
    (spansFrom license first ps).length = ps.countP (·.licensed license) := by
  induction ps generalizing first with
  | nil => rfl
  | cons p ps ih => by_cases h : p.licensed license <;> simp [spansFrom, h, ih]

/-- A file without its licensed snippets. -/
structure Excision where
  content : String
  /-- The removed snippets, in the order of the file. -/
  spans : List Span
  deriving DecidableEq, Repr

namespace Excision

/-- The number of removed snippets. -/
def removed (e : Excision) : Nat := e.spans.length

/-- A snippet was removed. -/
def isChanged (e : Excision) : Bool := decide (0 < e.removed)

theorem isChanged_iff {e : Excision} : e.isChanged = true ↔ e.spans ≠ [] := by
  simp [isChanged, removed, List.length_pos_iff]

end Excision

namespace Markers

/-- The line opens a snippet. -/
def opens (m : Markers) (l : Line) : Bool := occursIn m.opening.toList l

/-- The line closes a snippet. -/
def closes (m : Markers) (l : Line) : Bool := occursIn m.closing.toList l

/-- The pieces of a text. -/
def piecesOf (m : Markers) (content : String) : List Piece :=
  pieces m.opens m.closes (lines content.toList)

/-- Removes every snippet that names the licence; a text without one stays as it is. -/
def excise (m : Markers) (content : String) : Excision :=
  let ps := m.piecesOf content
  match spansFrom m.license.toList 1 ps with
  | [] => ⟨content, []⟩
  | s :: ss => ⟨String.ofList (unlines (keptLines m.license.toList ps)), s :: ss⟩

/-- The spans of an excision are those of the licensed pieces. -/
theorem spans_excise (m : Markers) (content : String) :
    (m.excise content).spans = spansFrom m.license.toList 1 (m.piecesOf content) := by
  simp only [excise]
  split <;> simp_all

end Markers
end Expunge
