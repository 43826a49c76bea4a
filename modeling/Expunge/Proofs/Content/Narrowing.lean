import Expunge.Content.Comment
import Expunge.Proofs.Content.Spans
import Mathlib.Data.List.Basic

/-!
# Narrower licences

The scan cuts a text into the same pieces whatever the licence is, and what names a licence names
every part of its text. So with a longer licence the same snippets are looked at and fewer are
removed (`spansFrom_sublist`), and what is kept with a part of the licence is kept with all of it
(`Markers.excise_narrower`).
-/

namespace Expunge
set_option autoImplicit false
open Text

section Scan

variable {license license' : List Char} {spans spans' : List Span}

/-- A piece that names a licence names every part of it. -/
theorem Piece.licensed_of_infix {p : Piece} (part : license <:+: license')
    (h : p.licensed license' = true) : p.licensed license = true := by
  cases p with
  | plain l => cases h
  | snippet body closed => exact occursIn_iff.2 (part.trans (occursIn_iff.1 h))

/-- Of the same pieces fewer are removed for a narrower licence. -/
theorem spansFrom_sublist (part : license <:+: license') (first : Nat) (ps : List Piece) :
    (spansFrom license' first ps).Sublist (spansFrom license first ps) := by
  induction ps generalizing first with
  | nil => exact .slnil
  | cons p ps ih =>
    have rest := ih (first + p.lines.length)
    rw [spansFrom_cons, spansFrom_cons]
    by_cases narrow : p.licensed license' = true
    · rw [if_pos narrow, if_pos (Piece.licensed_of_infix part narrow)]
      exact rest.cons_cons _
    · rw [if_neg narrow]
      split
      · exact rest.cons _
      · exact rest

/-- A line that some of the spans cover is covered by all of them together. -/
theorem any_covers_of_subset (fewer : spans' ⊆ spans) {i : Nat}
    (h : spans'.any (·.covers i) = true) : spans.any (·.covers i) = true := by
  obtain ⟨s, mem, inside⟩ := List.any_eq_true.1 h
  exact List.any_eq_true.2 ⟨s, fewer mem, inside⟩

/-- Outside of fewer spans are more lines, in the same order. -/
theorem outside_sublist (fewer : spans' ⊆ spans) (first : Nat) (ls : List Line) :
    (outside spans first ls).Sublist (outside spans' first ls) := by
  refine List.Sublist.map _ (List.monotone_filter_right _ fun l kept => ?_)
  rw [Bool.not_eq_true', ← Bool.not_eq_true] at kept ⊢
  exact fun covered => kept (any_covers_of_subset fewer covered)

end Scan

namespace Markers

variable {m m' : Markers}

/-- The pieces of a text do not hang on the licence. -/
theorem piecesOf_congr (opening : m'.opening = m.opening) (closing : m'.closing = m.closing)
    (content : String) : m'.piecesOf content = m.piecesOf content := by
  have opens : m'.opens = m.opens := by
    funext l
    rw [Markers.opens, opening, Markers.opens]
  have closes : m'.closes = m.closes := by
    funext l
    rw [Markers.closes, closing, Markers.closes]
  rw [piecesOf, opens, closes, piecesOf]

/-- **A narrower licence removes no more.** With a licence that is a part of another, and the same
markers for snippets, every file is deleted that is deleted with the other, the snippets removed with
the other are removed, line by line the same, and the lines that are kept are kept with the other
too, in their order. -/
theorem excise_narrower (opening : m'.opening = m.opening) (closing : m'.closing = m.closing)
    (part : m.license.toList <:+: m'.license.toList) (t : CommentTokens) (content : String) :
    let ls := lines content.toList
    let e := m.excise content
    let e' := m'.excise content
    (isProprietary m' t content = true → isProprietary m t content = true) ∧
      e'.spans.Sublist e.spans ∧
      (∀ i, (∃ s ∈ e'.spans, s.covers i = true) → ∃ s ∈ e.spans, s.covers i = true) ∧
      (outside e.spans 1 ls).Sublist (outside e'.spans 1 ls) ∧
      e.content = String.ofList (unlines (outside e.spans 1 ls)) ∧
      e'.content = String.ofList (unlines (outside e'.spans 1 ls)) := by
  intro ls e e'
  have fewer : e'.spans.Sublist e.spans := by
    rw [spans_excise, spans_excise, piecesOf_congr opening closing]
    exact spansFrom_sublist part 1 _
  refine ⟨fun whole => ?_, fewer, fun i => ?_, outside_sublist fewer.subset 1 ls,
    m.content_excise_outside content, m'.content_excise_outside content⟩
  · obtain ⟨comment, found, named⟩ := isProprietary_iff.1 whole
    exact isProprietary_iff.2 ⟨comment, found, part.trans named⟩
  · rintro ⟨s, mem, inside⟩
    exact ⟨s, fewer.subset mem, inside⟩

/-- A licence of two lines, and its first line alone. -/
theorem excise_narrower_two_lines :
    let m : Markers := ⟨"L", "B", "E"⟩
    let m' : Markers := ⟨"L\nM", "B", "E"⟩
    let content := "// L\n// M\nB L\nE\nB L\nM\nE"
    m'.opening = m.opening ∧ m'.closing = m.closing ∧ m.license.toList <:+: m'.license.toList ∧
      (isProprietary m' {} content = true → isProprietary m {} content = true) ∧
      (m'.excise content).spans.Sublist (m.excise content).spans ∧
      (m'.excise content).spans = [⟨5, 7, true⟩] ∧
      (m.excise content).spans = [⟨3, 4, true⟩, ⟨5, 7, true⟩] := by
  intro m m' content
  have part : m.license.toList <:+: m'.license.toList := ⟨[], ['\n', 'M'], by decide⟩
  obtain ⟨whole, fewer, -⟩ := @excise_narrower m m' rfl rfl part {} content
  exact ⟨rfl, rfl, part, whole, fewer, by decide +kernel, by decide +kernel⟩

end Markers
end Expunge
