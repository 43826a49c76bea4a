import Expunge.Proofs.Content.Snippets
import Expunge.Proofs.Text.Trim

/-!
# Excision is local

A text without an open snippet at its end is scanned in the same way whatever follows it, and what
follows is scanned as if it stood alone (`pieces_append`). So the excision of two texts with a line
feed between them is put together from their excisions (`excise_append_newline`).
-/

namespace Expunge
set_option autoImplicit false
open Text

/-- The span of a snippet with as many lines more in front. -/
def Span.lower (n : Nat) (s : Span) : Span :=
  { s with startLine := s.startLine + n, endLine := s.endLine + n }

section Scan

variable {opens closes : Line → Bool} {license : List Char} {p : Piece} {ps qs : List Piece}
  {as bs : List Line}

/-! ### Two lists of pieces -/

/-- Closed pieces can be followed by others. -/
theorem Partition.append (first : Partition opens closes ps) (closed : ∀ p ∈ ps, p.closed = true)
    (second : Partition opens closes qs) : Partition opens closes (ps ++ qs) where
  right p mem := (List.mem_append.1 mem).elim (first.right p) (second.right p)
  closed := List.pairwise_append.2 ⟨first.closed, second.closed, fun p mem _ _ => closed p mem⟩

theorem keptLines_append (license : List Char) (ps qs : List Piece) :
    keptLines license (ps ++ qs) = keptLines license ps ++ keptLines license qs := by
  rw [keptLines, List.filter_append, List.flatMap_append, keptLines, keptLines]

/-- The spans of later pieces start after the lines of the earlier ones. -/
theorem spansFrom_append (license : List Char) (first : Nat) (ps qs : List Piece) :
    spansFrom license first (ps ++ qs) = spansFrom license first ps ++
      spansFrom license (first + (ps.flatMap Piece.lines).length) qs := by
  induction ps generalizing first with
  | nil => rfl
  | cons p ps ih =>
    rw [List.cons_append, spansFrom_cons, spansFrom_cons, ih, List.flatMap_cons, List.length_append,
      Nat.add_assoc]
    cases p.licensed license <;> rfl

/-- With lines in front the same spans are found further down. -/
theorem spansFrom_add (license : List Char) (n : Nat) {first : Nat} (pos : 0 < first)
    (ps : List Piece) :
    spansFrom license (first + n) ps = (spansFrom license first ps).map (Span.lower n) := by
  induction ps generalizing first with
  | nil => rfl
  | cons p ps ih =>
    have here : p.span (first + n) = (p.span first).lower n := by
      simp only [Piece.span, Span.lower, Span.mk.injEq, and_true, true_and]
      omega
    have next : first + n + p.lines.length = first + p.lines.length + n := by omega
    rw [spansFrom_cons, spansFrom_cons, here, next, ih (by omega)]
    cases p.licensed license <;> rfl

/-! ### A text that leaves no snippet open -/

/-- An open snippet among pieces is one that is open behind their last line. -/
theorem closed_of_not_isOpenAt (cut : Partition opens closes ps)
    (shut : ∀ j, ¬ IsOpenAt opens closes (ps.flatMap Piece.lines) j
      ((ps.flatMap Piece.lines).length + 1)) : ∀ p ∈ ps, p.closed = true := by
  intro p mem
  obtain ⟨before, after, rfl⟩ := List.append_of_mem mem
  cases p with
  | plain l => rfl
  | snippet body isClosed =>
    cases isClosed with
    | true => rfl
    | false =>
      have span := isSnippetSpan_span cut
      rcases span.ends with ⟨closed, -⟩ | ⟨-, -, none⟩
      · exact absurd closed Bool.false_ne_true
      · exact absurd ⟨span.starts, fun k low _ => none k low⟩ (shut _)

/-- No snippet is open behind the last line exactly if the scan closed them all. -/
theorem not_isOpenAt_iff_closed :
    (∀ j, ¬ IsOpenAt opens closes as j (as.length + 1)) ↔
      ∀ p ∈ pieces opens closes as, p.closed = true := by
  have cut := partition_pieces opens closes as
  have whole := flatMap_lines_pieces opens closes as
  constructor
  · intro shut
    exact closed_of_not_isOpenAt cut (by rwa [whole])
  · intro closed j isOpen
    have within := (lineIs_bounds isOpen.1).2
    have shut : ¬ IsOpenAt opens closes ((pieces opens closes as).flatMap Piece.lines ++ []) j
        (as.length + 1) := not_isOpenAt_of_closed cut closed (by rwa [whole]) (by rw [whole]; omega)
    rw [whole, List.append_nil] at shut
    exact shut isOpen

/-- Scanning goes on behind a text as at the start of one, if no snippet is open there. -/
theorem pieces_append (shut : ∀ j, ¬ IsOpenAt opens closes as j (as.length + 1)) :
    pieces opens closes (as ++ bs) = pieces opens closes as ++ pieces opens closes bs := by
  have first := partition_pieces opens closes as
  have closed := not_isOpenAt_iff_closed.1 shut
  refine pieces_eq_iff.2 ⟨first.append closed (partition_pieces opens closes bs), ?_⟩
  rw [List.flatMap_append, flatMap_lines_pieces, flatMap_lines_pieces]

end Scan

namespace Markers

variable {m : Markers} {front : String}

/-- The pieces of two texts with a line feed between them. -/
theorem piecesOf_append_newline (shut : ∀ j, ¬ IsOpenAt m.opens m.closes (lines front.toList) j
    ((lines front.toList).length + 1)) (rest : String) :
    m.piecesOf (front ++ "\n" ++ rest) = m.piecesOf front ++ m.piecesOf rest := by
  rw [piecesOf, toList_append_newline, lines_append_newline, pieces_append shut, piecesOf, piecesOf]

/-- **Excision is local.** If no snippet is open at the end of a text, what is removed from it and what
is kept do not hang on the text behind it, nor the other way round but for the numbers of the lines. -/
theorem excise_append_newline (shut : ∀ j, ¬ IsOpenAt m.opens m.closes (lines front.toList) j
    ((lines front.toList).length + 1)) (rest : String) :
    let whole := m.excise (front ++ "\n" ++ rest)
    let e := m.excise front
    let e' := m.excise rest
    let kept := outside e.spans 1 (lines front.toList)
    let kept' := outside e'.spans 1 (lines rest.toList)
    whole.spans = e.spans ++ e'.spans.map (Span.lower (lines front.toList).length) ∧
      whole.removed = e.removed + e'.removed ∧
      outside whole.spans 1 (lines (front ++ "\n" ++ rest).toList) = kept ++ kept' ∧
      (kept ≠ [] → kept' ≠ [] → whole.content = e.content ++ "\n" ++ e'.content) ∧
      (kept' = [] → whole.content = e.content) ∧
      (kept = [] → whole.content = e'.content) ∧
      (kept = [] → kept' = [] → whole.content = "") := by
  intro whole e e' kept kept'
  have scan := piecesOf_append_newline shut rest
  have spans : whole.spans = e.spans ++ e'.spans.map (Span.lower (lines front.toList).length) := by
    rw [spans_excise, scan, spansFrom_append, flatMap_lines_piecesOf,
      spansFrom_add _ _ Nat.one_pos, ← spans_excise, ← spans_excise]
  have left : outside whole.spans 1 (lines (front ++ "\n" ++ rest).toList) = kept ++ kept' := by
    rw [outside_spans_excise, scan, keptLines_append, ← outside_spans_excise,
      ← outside_spans_excise]
  have joined : whole.content = String.ofList (unlines (kept ++ kept')) := by
    rw [content_excise_outside, left]
  refine ⟨spans, ?_, left, fun some some' => ?_, fun none => ?_, fun none => ?_,
    fun none none' => ?_⟩
  · rw [Excision.removed, spans, List.length_append, List.length_map, Excision.removed,
      Excision.removed]
  · rw [joined, m.content_excise_outside front, m.content_excise_outside rest,
      unlines_append some some', String.ofList_append, String.ofList_cons, String.append_assoc]
    rfl
  · rw [joined, none, List.append_nil, m.content_excise_outside front]
  · rw [joined, none, List.nil_append, m.content_excise_outside rest]
  · rw [joined, none, none']
    rfl

/-- A text that ends in a closed snippet, and one that ends in an open one. -/
theorem excise_append_newline_open_end :
    let m : Markers := ⟨"L", "B", "E"⟩
    let front := "a\nB L\nE"
    let rest := "b\nB\nL"
    (∀ j, ¬ IsOpenAt m.opens m.closes (lines front.toList) j ((lines front.toList).length + 1)) ∧
      (m.excise (front ++ "\n" ++ rest)).spans = [⟨2, 3, true⟩, ⟨5, 6, false⟩] ∧
      (m.excise (front ++ "\n" ++ rest)).removed = 2 ∧
      outside (m.excise (front ++ "\n" ++ rest)).spans 1 (lines (front ++ "\n" ++ rest).toList) =
        [['a'], ['b']] ∧
      (m.excise (front ++ "\n" ++ rest)).content = "a\nb" := by
  intro m front rest
  have shut := not_isOpenAt_iff_closed.2
    (show ∀ p ∈ pieces m.opens m.closes (lines front.toList), p.closed = true by decide +kernel)
  have first : m.excise front = ⟨"a", [⟨2, 3, true⟩]⟩ := by decide +kernel
  have second : m.excise rest = ⟨"b", [⟨2, 3, false⟩]⟩ := by decide +kernel
  have kept : outside (m.excise front).spans 1 (lines front.toList) = [['a']] := by decide +kernel
  have kept' : outside (m.excise rest).spans 1 (lines rest.toList) = [['b']] := by decide +kernel
  obtain ⟨spans, removed, left, content, -⟩ := excise_append_newline shut rest
  rw [kept, kept'] at content left
  have content := content (by simp) (by simp)
  rw [first, second] at spans removed content
  exact ⟨shut, spans.trans (by decide +kernel), removed, left, content.trans (by decide)⟩

end Markers
end Expunge
