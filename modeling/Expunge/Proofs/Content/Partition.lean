import Expunge.Content.Snippet
import Expunge.Proofs.Text.Lines

/-!
# What the scan for snippets finds

`Partition` says of a list of pieces, without the scan, that it is cut where it should be. The
scan of some lines is the one partition of them (`pieces_eq_iff`), and leaving pieces out leaves
a partition, so scanning what excision keeps finds the kept pieces again.
-/

namespace Expunge
set_option autoImplicit false
open Text

variable {opens closes : Line → Bool}

/-- A snippet starts with an opening line and goes on to the first closing line, if there is
one. -/
structure IsSnippet (opens closes : Line → Bool) (body : List Line) (closed : Bool) : Prop where
  head : body.head?.any opens = true
  inside : ∀ l ∈ body.dropLast, closes l = false
  last : body.getLast?.any closes = closed

/-- A piece of the right form. -/
def Piece.IsRight (opens closes : Line → Bool) : Piece → Prop
  | plain l => opens l = false
  | snippet body closed => IsSnippet opens closes body closed

/-- Pieces of the right form, of which the last one alone may be an open snippet. -/
structure Partition (opens closes : Line → Bool) (ps : List Piece) : Prop where
  right : ∀ p ∈ ps, p.IsRight opens closes
  closed : ps.Pairwise fun p _ => p.closed = true

namespace IsSnippet

variable {body : List Line} {closed : Bool}

theorem ne_nil (h : IsSnippet opens closes body closed) : body ≠ [] := by
  rintro rfl
  simpa using h.head

/-- The first line of a snippet, and the others. -/
theorem exists_cons (h : IsSnippet opens closes body closed) :
    ∃ l rest, body = l :: rest ∧ opens l = true := by
  obtain ⟨l, rest, rfl⟩ := List.exists_cons_of_ne_nil h.ne_nil
  exact ⟨l, rest, rfl, by simpa using h.head⟩

/-- A closed snippet ends in its only closing line. -/
theorem exists_concat (h : IsSnippet opens closes body true) :
    ∃ before l, body = before ++ [l] ∧ (∀ k ∈ before, closes k = false) ∧ closes l = true := by
  have whole := List.dropLast_concat_getLast h.ne_nil
  refine ⟨body.dropLast, body.getLast h.ne_nil, whole.symm, h.inside, ?_⟩
  simpa [List.getLast?_eq_some_getLast h.ne_nil] using h.last

/-- An open snippet has no closing line. -/
theorem none_closes (h : IsSnippet opens closes body false) : ∀ l ∈ body, closes l = false := by
  have whole := List.dropLast_concat_getLast h.ne_nil
  have last : closes (body.getLast h.ne_nil) = false := by
    simpa [List.getLast?_eq_some_getLast h.ne_nil] using h.last
  intro l hl
  rw [← whole, List.mem_append, List.mem_singleton] at hl
  rcases hl with hl | rfl
  · exact h.inside l hl
  · exact last

end IsSnippet

namespace Piece

/-- A piece holds a line. -/
theorem lines_ne_nil {p : Piece} (h : p.IsRight opens closes) : p.lines ≠ [] := by
  cases p with
  | plain l => simp [lines]
  | snippet body closed => exact IsSnippet.ne_nil h

theorem length_lines_pos {p : Piece} (h : p.IsRight opens closes) : 0 < p.lines.length :=
  List.length_pos_iff.2 (lines_ne_nil h)

end Piece

namespace Partition

variable {p : Piece} {ps qs : List Piece}

theorem nil : Partition opens closes [] := ⟨by simp, .nil⟩

theorem cons_iff : Partition opens closes (p :: ps) ↔
    p.IsRight opens closes ∧ (ps = [] ∨ p.closed = true) ∧ Partition opens closes ps := by
  constructor
  · rintro ⟨right, closed⟩
    obtain ⟨first, rest⟩ := List.pairwise_cons.1 closed
    refine ⟨right p (by simp), ?_, fun q h => right q (by simp [h]), rest⟩
    cases ps with
    | nil => exact .inl rfl
    | cons q ps => exact .inr (first q (by simp))
  · rintro ⟨right, closed, rest⟩
    refine ⟨by simpa using ⟨right, rest.right⟩, List.pairwise_cons.2 ⟨fun q h => ?_, rest.closed⟩⟩
    rcases closed with rfl | closed
    · simp at h
    · exact closed

theorem tail (h : Partition opens closes (p :: ps)) : Partition opens closes ps :=
  (cons_iff.1 h).2.2

/-- Leaving pieces out leaves a partition of the other lines. -/
theorem sublist (h : Partition opens closes ps) (part : List.Sublist qs ps) :
    Partition opens closes qs :=
  ⟨fun q hq => h.right q (part.subset hq), h.closed.sublist part⟩

/-- A partition on the left of another piece ends closed. -/
theorem closed_of_append {before after : List Piece}
    (h : Partition opens closes (before ++ p :: after)) : ∀ q ∈ before, q.closed = true :=
  fun q hq => (List.pairwise_append.1 h.closed).2.2 q hq p (by simp)

end Partition

/-- What the scan cuts off is a snippet. -/
theorem isSnippet_takeThrough {l : Line} (ls : List Line) (starts : opens l = true) :
    IsSnippet opens closes (takeThrough closes (l :: ls)) ((l :: ls).any closes) := by
  rcases none_or_first closes (l :: ls) with none | ⟨before, k, after, e, none, here⟩
  · rw [takeThrough_of_none none]
    have shut : (l :: ls).any closes = false := by simpa using none
    refine ⟨by simpa using starts, fun k h => none k (List.dropLast_subset _ h), ?_⟩
    rw [shut, List.getLast?_eq_some_getLast (by simp), Option.any_some]
    exact none _ (List.getLast_mem _)
  · have first : (before ++ [k]).head? = some l := by
      have := congrArg List.head? e
      cases before <;> simp_all
    rw [e, takeThrough_append_cons none here]
    exact ⟨by simp [first, starts], by simpa using none, by simp [here]⟩

/-- The scan gives a partition. -/
theorem partition_pieces (opens closes : Line → Bool) (ls : List Line) :
    Partition opens closes (pieces opens closes ls) := by
  fun_induction pieces opens closes ls with
  | case1 => exact .nil
  | case2 l ls starts ih =>
    refine Partition.cons_iff.2 ⟨isSnippet_takeThrough ls starts, ?_, ih⟩
    cases shut : (l :: ls).any closes with
    | true => exact .inr rfl
    | false =>
      -- nothing is left behind a snippet that no line closes
      have none : ∀ k ∈ l :: ls, closes k = false := by simpa using shut
      rw [dropThrough_of_none none]
      exact .inl (by simp [pieces])
  | case3 l ls plain ih =>
    exact Partition.cons_iff.2 ⟨by simpa [Piece.IsRight] using plain, .inr rfl, ih⟩

/-- Scanning the lines of a partition gives the partition back. -/
theorem Partition.pieces_flatMap_lines {ps : List Piece} (h : Partition opens closes ps) :
    pieces opens closes (ps.flatMap Piece.lines) = ps := by
  induction ps with
  | nil => simp [pieces]
  | cons p ps ih =>
    obtain ⟨right, closed, rest⟩ := Partition.cons_iff.1 h
    have again := ih rest
    rw [List.flatMap_cons]
    cases p with
    | plain l =>
      have shut : opens l = false := right
      simp [Piece.lines, pieces, shut, again]
    | snippet body isClosed =>
      obtain ⟨l, tail, rfl, starts⟩ := IsSnippet.exists_cons right
      rw [Piece.lines, List.cons_append, pieces, if_pos starts, ← List.cons_append]
      cases isClosed with
      | true =>
        obtain ⟨before, k, e, none, here⟩ := IsSnippet.exists_concat right
        rw [e, List.append_assoc, List.singleton_append, takeThrough_append_cons none here,
          dropThrough_append_cons none here, again]
        simp [here]
      | false =>
        obtain rfl : ps = [] := by simpa [Piece.closed] using closed
        have none := IsSnippet.none_closes right
        have shut : (l :: tail).any closes = false := by simpa using none
        rw [List.flatMap_nil, List.append_nil, takeThrough_of_none none, dropThrough_of_none none,
          shut]
        simp [pieces]

/-- The scan of some lines is the one partition of them. -/
theorem pieces_eq_iff {ls : List Line} {ps : List Piece} :
    pieces opens closes ls = ps ↔ Partition opens closes ps ∧ ps.flatMap Piece.lines = ls := by
  constructor
  · rintro rfl
    exact ⟨partition_pieces opens closes ls, flatMap_lines_pieces opens closes ls⟩
  · rintro ⟨h, rfl⟩
    exact h.pieces_flatMap_lines

end Expunge
