import Expunge.Proofs.Content.Spans

/-!
# Excision has nothing left to do

Excision leaves pieces out of a partition, so a second scan finds the kept pieces again and none
of them is licensed (`spansFrom_filter`). Where nothing is kept, the second scan sees one empty
line instead.
-/

namespace Expunge
set_option autoImplicit false
open Text

/-- The pieces that are kept have no spans. -/
theorem spansFrom_filter (license : List Char) (first : Nat) (ps : List Piece) :
    spansFrom license first (ps.filter (!·.licensed license)) = [] := by
  rw [← List.length_eq_zero_iff, length_spansFrom, List.countP_eq_zero]
  intro p hp
  have kept := (List.mem_filter.1 hp).2
  simpa using kept

namespace Markers

/-- One empty line holds nothing to remove, unless both tokens are empty. -/
theorem spansFrom_empty_line {m : Markers} (some : m.opening ≠ "" ∨ m.license ≠ "") (first : Nat) :
    spansFrom m.license.toList first (pieces m.opens m.closes [[]]) = [] := by
  have occurs : ∀ token : String, occursIn token.toList [] = true ↔ token = "" := fun token => by
    rw [occursIn_iff, List.infix_nil, String.toList_eq_nil_iff]
  by_cases opened : m.opens [] = true
  · have license : occursIn m.license.toList [] = false := by
      rw [← Bool.not_eq_true, occurs]
      exact some.resolve_left fun h => h ((occurs _).1 opened)
    rw [pieces, if_pos opened, spansFrom_cons, if_neg]
    · cases shut : m.closes [] <;> simp [dropThrough, shut, pieces, spansFrom]
    · cases shut : m.closes [] <;> simp [Piece.licensed, takeThrough, shut, license]
  · simp [pieces, opened, spansFrom, Piece.licensed]

/-- A second excision finds no span. -/
theorem spans_excise_content {m : Markers} (some : m.opening ≠ "" ∨ m.license ≠ "")
    (content : String) : (m.excise (m.excise content).content).spans = [] := by
  let kept := keptLines m.license.toList (m.piecesOf content)
  rw [spans_excise, piecesOf]
  by_cases none : kept = []
  · have empty : (m.excise content).content = "" := by
      rw [content_excise, show keptLines _ _ = [] from none]
      rfl
    rw [empty, show lines "".toList = [[]] from rfl]
    exact spansFrom_empty_line some 1
  · have again : pieces m.opens m.closes kept =
        (m.piecesOf content).filter (!·.licensed m.license.toList) :=
      ((m.partition_piecesOf content).sublist List.filter_sublist).pieces_flatMap_lines
    rw [lines_content_excise none, again]
    exact spansFrom_filter _ _ _

/-- **Excision is idempotent**: what it leaves holds no span that it would remove, and stays as it
is. -/
theorem excise_excise {m : Markers} (some : m.opening ≠ "" ∨ m.license ≠ "") (content : String) :
    (m.excise (m.excise content).content).removed = 0 ∧
      (m.excise (m.excise content).content).spans = [] ∧
      (m.excise (m.excise content).content).content = (m.excise content).content := by
  have none := spans_excise_content some content
  have same := excise_of_spans_eq_nil none
  rw [same]
  exact ⟨rfl, rfl, rfl⟩

/-- With an empty opening marker every line is in a snippet, and a text may be lost as a whole. -/
theorem excise_excise_everywhere_open :
    (("" : String) ≠ "" ∨ "L" ≠ "") ∧
      (Markers.excise ⟨"L", "", "E"⟩ (Markers.excise ⟨"L", "", "E"⟩ "L\nE\nL").content).removed = 0 ∧
      (Markers.excise ⟨"L", "", "E"⟩ (Markers.excise ⟨"L", "", "E"⟩ "L\nE\nL").content).spans = [] ∧
      (Markers.excise ⟨"L", "", "E"⟩ (Markers.excise ⟨"L", "", "E"⟩ "L\nE\nL").content).content =
        (Markers.excise ⟨"L", "", "E"⟩ "L\nE\nL").content :=
  ⟨.inr (by decide), excise_excise (.inr (by decide)) "L\nE\nL"⟩

end Markers
end Expunge
