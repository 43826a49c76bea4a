/-!
# Lines

A text as the lines between its line feeds. Splitting and joining are inverse to each other:
no character is lost, a carriage return stays at the end of its line, and a text that ends in a
line feed has an empty last line.
-/

namespace Expunge.Text
set_option autoImplicit false

/-- A line, without the line feed that ends it. -/
abbrev Line := List Char

/-- The lines of a text: what stands between its line feeds. -/
def lines (cs : List Char) : List Line := cs.splitOn '\n'

/-- The text with the given lines. -/
def unlines (ls : List Line) : List Char := ['\n'].intercalate ls

@[simp] theorem lines_nil : lines [] = [[]] := rfl

@[simp] theorem unlines_nil : unlines [] = [] := rfl

@[simp] theorem unlines_singleton (l : Line) : unlines [l] = l := by simp [unlines]

theorem unlines_cons_cons (l l' : Line) (ls : List Line) :
    unlines (l :: l' :: ls) = l ++ '\n' :: unlines (l' :: ls) := by
  simp [unlines, List.intercalate_cons_cons]

theorem lines_cons (c : Char) (cs : List Char) :
    lines (c :: cs) = if c = '\n' then [] :: lines cs else (lines cs).modifyHead (c :: ·) := by
  simp [lines, List.splitOn_eq_splitOnP, List.splitOnP_cons_eq_if_modifyHead]

theorem lines_ne_nil (cs : List Char) : lines cs ≠ [] := by
  simp [lines, List.splitOn_eq_splitOnP, List.splitOnP_ne_nil]

/-- Joining the lines of a text gives the text back. -/
theorem unlines_lines (cs : List Char) : unlines (lines cs) = cs :=
  List.intercalate_splitOn '\n'

/-- Splitting a join of lines gives the lines back, if there is one and none holds a line feed. -/
theorem lines_unlines {ls : List Line} (plain : ∀ l ∈ ls, '\n' ∉ l) (some : ls ≠ []) :
    lines (unlines ls) = ls :=
  List.splitOn_intercalate '\n' plain some

/-! ### Cutting after the first line of a kind -/

/-- The lines up to and including the first one with `p`; all lines if none has it. -/
def takeThrough (p : Line → Bool) : List Line → List Line
  | [] => []
  | l :: ls => if p l then [l] else l :: takeThrough p ls

/-- The lines after the first one with `p`; none if none has it. -/
def dropThrough (p : Line → Bool) : List Line → List Line
  | [] => []
  | l :: ls => if p l then ls else dropThrough p ls

@[simp] theorem takeThrough_append_dropThrough (p : Line → Bool) (ls : List Line) :
    takeThrough p ls ++ dropThrough p ls = ls := by
  induction ls with
  | nil => rfl
  | cons l ls ih => by_cases h : p l <;> simp [takeThrough, dropThrough, h, ih]

theorem takeThrough_cons_ne_nil (p : Line → Bool) (l : Line) (ls : List Line) :
    takeThrough p (l :: ls) ≠ [] := by
  by_cases h : p l <;> simp [takeThrough, h]

/-- What follows the cut is shorter than the text. -/
theorem length_dropThrough_cons (p : Line → Bool) (l : Line) (ls : List Line) :
    (dropThrough p (l :: ls)).length < (l :: ls).length := by
  have whole := congrArg List.length (takeThrough_append_dropThrough p (l :: ls))
  have first := List.length_pos_iff.2 (takeThrough_cons_ne_nil p l ls)
  simp only [List.length_append] at whole
  omega

end Expunge.Text
