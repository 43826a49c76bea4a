import Expunge.Proofs.Content.Spans

/-!
# Where the snippets of a text are

A snippet is described by line numbers alone (`IsSnippetSpan`): it starts at an opening line that
no earlier snippet still holds open, and runs to the first closing line from there on, or to the
end. The scan finds these spans and no others (`isSnippetSpan_iff`), so excision removes exactly
those that name the licence.
-/

namespace Expunge
set_option autoImplicit false
open Text

/-- The line with the given number, counted from 1, is of a kind. -/
def lineIs (p : Line → Bool) (ls : List Line) : Nat → Bool
  | 0 => false
  | i + 1 => ls[i]?.any p

/-- The line `j` opens a snippet, and no line from there on closes one before the line `i`. -/
def IsOpenAt (opens closes : Line → Bool) (ls : List Line) (j i : Nat) : Prop :=
  lineIs opens ls j = true ∧ ∀ k, j ≤ k → k < i → lineIs closes ls k = false

/-- The span of a snippet among lines, licensed or not. -/
structure IsSnippetSpan (opens closes : Line → Bool) (ls : List Line) (s : Span) : Prop where
  starts : lineIs opens ls s.startLine = true
  outside : ∀ j < s.startLine, ¬ IsOpenAt opens closes ls j s.startLine
  ends : (s.terminated = true ∧ s.startLine ≤ s.endLine ∧ lineIs closes ls s.endLine = true ∧
      ∀ k, s.startLine ≤ k → k < s.endLine → lineIs closes ls k = false) ∨
    (s.terminated = false ∧ s.endLine = ls.length ∧
      ∀ k, s.startLine ≤ k → lineIs closes ls k = false)

section Lines

variable {p : Line → Bool} {ls as bs : List Line} {i : Nat}

theorem lineIs_bounds (h : lineIs p ls i = true) : 0 < i ∧ i ≤ ls.length := by
  cases i with
  | zero => simp [lineIs] at h
  | succ i =>
    cases e : ls[i]? with
    | none => simp [lineIs, e] at h
    | some l =>
      have := (List.getElem?_eq_some_iff.1 e).1
      omega

theorem lineIs_append_left (within : i ≤ as.length) : lineIs p (as ++ bs) i = lineIs p as i := by
  cases i with
  | zero => rfl
  | succ i => simp only [lineIs, List.getElem?_append_left (show i < as.length by omega)]

theorem lineIs_append_right (as bs : List Line) (pos : 0 < i) :
    lineIs p (as ++ bs) (as.length + i) = lineIs p bs i := by
  obtain ⟨i, rfl⟩ := Nat.exists_eq_succ_of_ne_zero (Nat.ne_of_gt pos)
  show (as ++ bs)[as.length + i]?.any p = bs[i]?.any p
  rw [List.getElem?_append_right (Nat.le_add_right as.length i), Nat.add_sub_cancel_left]

theorem lineIs_eq_false (none : ∀ l ∈ ls, p l = false) (i : Nat) : lineIs p ls i = false := by
  cases i with
  | zero => rfl
  | succ i =>
    cases e : ls[i]? with
    | none => simp [lineIs, e]
    | some l => simp [lineIs, e, none l (List.mem_of_getElem? e)]

theorem exists_mem_of_lineIs (h : lineIs p ls i = true) : ∃ l ∈ ls, p l = true := by
  cases i with
  | zero => simp [lineIs] at h
  | succ i =>
    obtain ⟨l, found, named⟩ := (Option.any_eq_true _ _).1 h
    exact ⟨l, List.mem_of_getElem? found, named⟩

theorem lineIs_concat (as : List Line) (l : Line) : lineIs p (as ++ [l]) (as.length + 1) = p l := by
  simp [lineIs]

end Lines

section Scan

variable {opens closes : Line → Bool} {ls : List Line} {before after ps : List Piece} {p : Piece}
  {s s' : Span} {i j : Nat}

/-- An opening line of closed pieces has a closing line at or after it. -/
theorem exists_closing_line (cut : Partition opens closes before)
    (closed : ∀ q ∈ before, q.closed = true)
    (h : lineIs opens (before.flatMap Piece.lines) j = true) :
    ∃ k, j ≤ k ∧ k ≤ (before.flatMap Piece.lines).length ∧
      lineIs closes (before.flatMap Piece.lines) k = true := by
  induction before generalizing j with
  | nil => exact absurd (lineIs_bounds h) (by simp; omega)
  | cons q qs ih =>
    rw [List.flatMap_cons] at h ⊢
    by_cases here : j ≤ q.lines.length
    · rw [lineIs_append_left here] at h
      cases q with
      | plain l =>
        have shut : opens l = false := cut.right (.plain l) (by simp)
        have none : ∀ l' ∈ [l], opens l' = false := by simpa using shut
        rw [Piece.lines, lineIs_eq_false none] at h
        exact absurd h Bool.false_ne_true
      | snippet body isClosed =>
        obtain rfl : isClosed = true := closed (.snippet body isClosed) (by simp)
        obtain ⟨init, l, rfl, -, ends⟩ :=
          IsSnippet.exists_concat (cut.right (.snippet body true) (by simp))
        refine ⟨(init ++ [l]).length, here, by simp [Piece.lines], ?_⟩
        rw [Piece.lines, lineIs_append_left (Nat.le_refl _), List.length_append,
          List.length_singleton, lineIs_concat, ends]
    · obtain ⟨i, rfl⟩ := Nat.exists_eq_add_of_lt (Nat.lt_of_not_le here)
      rw [Nat.add_assoc, lineIs_append_right _ _ (Nat.succ_pos i)] at h
      obtain ⟨k, low, high, ends⟩ := ih cut.tail (fun q hq => closed q (by simp [hq])) h
      refine ⟨q.lines.length + k, by omega, by rw [List.length_append]; omega, ?_⟩
      rw [lineIs_append_right _ _ (by omega), ends]

/-- No snippet reaches from closed pieces into what follows them. -/
theorem not_isOpenAt_of_closed (cut : Partition opens closes before)
    (closed : ∀ q ∈ before, q.closed = true) {rest : List Line}
    (low : j ≤ (before.flatMap Piece.lines).length)
    (high : (before.flatMap Piece.lines).length < i) :
    ¬ IsOpenAt opens closes (before.flatMap Piece.lines ++ rest) j i := by
  rintro ⟨starts, open_⟩
  rw [lineIs_append_left low] at starts
  obtain ⟨k, first, last, ends⟩ := exists_closing_line cut closed starts
  have shut := open_ k first (by omega)
  rw [lineIs_append_left last, ends] at shut
  exact absurd shut (by decide)

/-- The lines of the pieces around a piece. -/
theorem flatMap_lines_append_cons : (before ++ p :: after).flatMap Piece.lines =
    before.flatMap Piece.lines ++ (p.lines ++ after.flatMap Piece.lines) := by simp

/-- A snippet of a partition is one by its line numbers. -/
theorem isSnippetSpan_span {body : List Line} {isClosed : Bool}
    (cut : Partition opens closes (before ++ .snippet body isClosed :: after)) :
    IsSnippetSpan opens closes ((before ++ .snippet body isClosed :: after).flatMap Piece.lines)
      ((Piece.snippet body isClosed).span ((before.flatMap Piece.lines).length + 1)) := by
  have right : IsSnippet opens closes body isClosed :=
    cut.right (.snippet body isClosed) (by simp)
  have some := List.length_pos_iff.2 right.ne_nil
  have past : Partition opens closes before := cut.sublist (List.sublist_append_left _ _)
  rw [flatMap_lines_append_cons]
  have size : ∀ n, n + 1 + body.length - 1 = n + body.length := fun n => by omega
  refine ⟨?_, fun j low => ?_, ?_⟩
  · obtain ⟨l, tail, rfl, opened⟩ := right.exists_cons
    rw [Piece.span, lineIs_append_right _ _ (by decide)]
    simpa [lineIs, Piece.lines] using opened
  · exact not_isOpenAt_of_closed past cut.closed_of_append (Nat.le_of_lt_succ low)
      (Nat.lt_succ_self _)
  · simp only [Piece.span, Piece.lines, Piece.closed, size]
    cases isClosed with
    | true =>
      obtain ⟨init, l, rfl, none, ends⟩ := right.exists_concat
      refine .inl ⟨rfl, by omega, ?_, fun k low high => ?_⟩
      · rw [lineIs_append_right _ _ some, lineIs_append_left (Nat.le_refl _), List.length_append,
          List.length_singleton, lineIs_concat, ends]
      · rw [List.length_append, List.length_singleton] at high
        obtain ⟨k, rfl⟩ := Nat.exists_eq_add_of_le (Nat.le_of_lt low)
        rw [lineIs_append_right _ _ (by omega), List.append_assoc,
          lineIs_append_left (by omega), lineIs_eq_false none]
    | false =>
      obtain rfl : after = [] := by simpa [Piece.closed] using
        (Partition.cons_iff.1 (cut.sublist (List.sublist_append_right before _))).2.1
      refine .inr ⟨rfl, by simp, fun k low => ?_⟩
      obtain ⟨k, rfl⟩ := Nat.exists_eq_add_of_le (Nat.le_of_lt low)
      rw [lineIs_append_right _ _ (by omega), List.flatMap_nil, List.append_nil,
        lineIs_eq_false right.none_closes]

/-- Snippets that start at one line are the same. -/
theorem IsSnippetSpan.eq (h : IsSnippetSpan opens closes ls s)
    (h' : IsSnippetSpan opens closes ls s') (start : s.startLine = s'.startLine) : s = s' := by
  obtain ⟨a, e, t⟩ := s
  obtain ⟨a', e', t'⟩ := s'
  obtain rfl : a = a' := start
  have ends := h.ends
  have ends' := h'.ends
  dsimp only at ends ends'
  rcases ends with ⟨rfl, low, here, none⟩ | ⟨rfl, rfl, none⟩ <;>
    rcases ends' with ⟨rfl, low', here', none'⟩ | ⟨rfl, rfl, none'⟩
  · -- of two first closing lines neither is before the other
    have first : ¬ e < e' := fun less => by simp [none' e low less] at here
    have second : ¬ e' < e := fun less => by simp [none e' low' less] at here'
    obtain rfl : e = e' := by omega
    rfl
  · simp [none' e low] at here
  · simp [none e' low'] at here'
  · rfl

/-- A line is in a piece. -/
theorem exists_piece_at (pos : 0 < i) (within : i ≤ (ps.flatMap Piece.lines).length) :
    ∃ before p after, ps = before ++ p :: after ∧ (before.flatMap Piece.lines).length < i ∧
      i ≤ (before.flatMap Piece.lines).length + p.lines.length := by
  induction ps generalizing i with
  | nil =>
    simp at within
    omega
  | cons p ps ih =>
    by_cases here : i ≤ p.lines.length
    · exact ⟨[], p, ps, rfl, pos, by simpa using here⟩
    · rw [List.flatMap_cons, List.length_append] at within
      obtain ⟨before, q, after, rfl, low, high⟩ :=
        ih (i := i - p.lines.length) (by omega) (by omega)
      refine ⟨p :: before, q, after, rfl, ?_, ?_⟩ <;> rw [List.flatMap_cons, List.length_append] <;>
        omega

/-- A line at which a snippet is open is in a snippet of every partition. -/
theorem exists_snippet_of_isOpenAt (cut : Partition opens closes ps) (le : j ≤ i)
    (within : i ≤ (ps.flatMap Piece.lines).length)
    (h : IsOpenAt opens closes (ps.flatMap Piece.lines) j i) :
    ∃ before body isClosed after, ps = before ++ .snippet body isClosed :: after ∧
      (before.flatMap Piece.lines).length < i ∧
      i ≤ (before.flatMap Piece.lines).length + body.length := by
  have pos := (lineIs_bounds h.1).1
  obtain ⟨before, p, after, rfl, low, high⟩ := exists_piece_at (by omega) within
  cases p with
  | snippet body isClosed => exact ⟨before, body, isClosed, after, rfl, low, high⟩
  | plain l =>
    have past : Partition opens closes before := cut.sublist (List.sublist_append_left _ _)
    have shut : opens l = false := cut.right (.plain l) (by simp)
    rw [flatMap_lines_append_cons] at h
    -- the opening line is among the closed pieces before the line, or is the line itself
    by_cases earlier : j ≤ (before.flatMap Piece.lines).length
    · exact absurd h (not_isOpenAt_of_closed past cut.closed_of_append earlier low)
    · have starts := h.1
      simp only [Piece.lines, List.length_singleton] at high
      obtain rfl : j = (before.flatMap Piece.lines).length + 1 := by omega
      rw [lineIs_append_right _ _ (by decide)] at starts
      simp [lineIs, Piece.lines, shut] at starts

/-- The spans of the snippets are those of the pieces. -/
theorem isSnippetSpan_iff (cut : Partition opens closes ps) :
    IsSnippetSpan opens closes (ps.flatMap Piece.lines) s ↔
      ∃ before body isClosed after, ps = before ++ .snippet body isClosed :: after ∧
        s = (Piece.snippet body isClosed).span ((before.flatMap Piece.lines).length + 1) := by
  constructor
  · intro h
    have within := (lineIs_bounds h.starts).2
    obtain ⟨before, body, isClosed, after, rfl, low, high⟩ :=
      exists_snippet_of_isOpenAt cut (Nat.le_refl _) within
        ⟨h.starts, fun k low high => absurd high (Nat.not_lt.2 low)⟩
    have found := isSnippetSpan_span cut
    refine ⟨before, body, isClosed, after, rfl, h.eq found ?_⟩
    rcases Nat.lt_or_eq_of_le (Nat.succ_le_of_lt low) with inside | same
    · -- a start inside of the piece would be in a snippet that is still open
      refine absurd ⟨found.starts, fun k first last => ?_⟩ (h.outside _ inside)
      rcases found.ends with ⟨-, -, -, none⟩ | ⟨-, -, none⟩
      · exact none k first (by simp only [Piece.span, Piece.lines]; omega)
      · exact none k first
    · exact same.symm
  · rintro ⟨before, body, isClosed, after, rfl, rfl⟩
    exact isSnippetSpan_span cut

/-- The slice of a snippet of a partition is its body. -/
theorem slice_span_of_partition {body : List Line} {isClosed : Bool} :
    ((Piece.snippet body isClosed).span ((before.flatMap Piece.lines).length + 1)).slice
      ((before ++ .snippet body isClosed :: after).flatMap Piece.lines) = body := by
  rw [flatMap_lines_append_cons, slice_span]
  rfl

/-- The scan reports the snippets that name the licence. -/
theorem mem_spansFrom_iff_licensed (cut : Partition opens closes ps) {license : List Char} :
    s ∈ spansFrom license 1 ps ↔ IsSnippetSpan opens closes (ps.flatMap Piece.lines) s ∧
      license <:+: unlines (s.slice (ps.flatMap Piece.lines)) := by
  rw [isSnippetSpan_iff cut, mem_spansFrom]
  constructor
  · rintro ⟨before, p, after, rfl, licensed, rfl⟩
    rw [Nat.add_comm]
    cases p with
    | plain l => simp [Piece.licensed] at licensed
    | snippet body isClosed =>
      refine ⟨⟨before, body, isClosed, after, rfl, rfl⟩, ?_⟩
      rw [slice_span_of_partition]
      exact occursIn_iff.1 licensed
  · rintro ⟨⟨before, body, isClosed, after, rfl, rfl⟩, licensed⟩
    rw [slice_span_of_partition] at licensed
    exact ⟨before, _, after, rfl, occursIn_iff.2 licensed, by rw [Nat.add_comm 1]⟩

/-- A snippet is open at each of its lines. -/
theorem IsSnippetSpan.isOpenAt (h : IsSnippetSpan opens closes ls s) (last : i ≤ s.endLine) :
    IsOpenAt opens closes ls s.startLine i := by
  refine ⟨h.starts, fun k low high => ?_⟩
  rcases h.ends with ⟨-, -, -, none⟩ | ⟨-, -, none⟩
  · exact none k low (Nat.lt_of_lt_of_le high last)
  · exact none k low

/-- A line that names the licence is removed exactly if a snippet is open at it. -/
theorem exists_covers_iff_isOpenAt (cut : Partition opens closes ps) {license : List Char}
    (named : lineIs (occursIn license) (ps.flatMap Piece.lines) i = true) :
    (∃ s ∈ spansFrom license 1 ps, s.covers i = true) ↔
      ∃ j ≤ i, IsOpenAt opens closes (ps.flatMap Piece.lines) j i := by
  constructor
  · rintro ⟨s, hs, inside⟩
    obtain ⟨first, last⟩ := Span.covers_iff.1 inside
    exact ⟨s.startLine, first, ((mem_spansFrom_iff_licensed cut).1 hs).1.isOpenAt last⟩
  · rintro ⟨j, le, opened⟩
    obtain ⟨before, body, isClosed, after, rfl, low, high⟩ :=
      exists_snippet_of_isOpenAt cut le (lineIs_bounds named).2 opened
    have licensed : license <:+: unlines body := by
      obtain ⟨k, rfl⟩ := Nat.exists_eq_add_of_le (Nat.le_of_lt low)
      rw [flatMap_lines_append_cons, lineIs_append_right _ _ (by omega),
        lineIs_append_left (by simpa [Piece.lines] using high)] at named
      obtain ⟨l, mem, names⟩ := exists_mem_of_lineIs named
      exact (occursIn_iff.1 names).trans (infix_unlines_of_mem mem)
    refine ⟨_, (mem_spansFrom_iff_licensed cut).2 ⟨isSnippetSpan_span cut, ?_⟩, ?_⟩
    · rwa [slice_span_of_partition]
    · rw [Span.covers_iff]
      simp only [Piece.span, Piece.lines]
      omega

end Scan

/-- **Excision removes the snippets that name the licence, and no others.** The spans are those of
the licensed snippets, in order, and only the last one can be open. What is left are the lines
outside of them, so a line that names the licence is gone exactly if a snippet is open at it. -/
theorem Markers.spans_excise_licensed (m : Markers) (content : String) :
    let ls := lines content.toList
    let spans := (m.excise content).spans
    (∀ s, s ∈ spans ↔ IsSnippetSpan m.opens m.closes ls s ∧
      m.license.toList <:+: unlines (s.slice ls)) ∧
    (∀ s ∈ spans, s.startLine ≤ s.endLine) ∧
    spans.Pairwise (fun a b => a.endLine < b.startLine ∧ a.terminated = true) ∧
    (m.excise content).content = String.ofList (unlines (outside spans 1 ls)) ∧
    ∀ i, lineIs (occursIn m.license.toList) ls i = true →
      ((∃ s ∈ spans, s.covers i = true) ↔ ∃ j ≤ i, IsOpenAt m.opens m.closes ls j i) := by
  intro ls spans
  have cut := m.partition_piecesOf content
  have whole : (m.piecesOf content).flatMap Piece.lines = ls := m.flatMap_lines_piecesOf content
  have scanned : spans = spansFrom m.license.toList 1 (m.piecesOf content) :=
    m.spans_excise content
  rw [scanned, ← whole]
  refine ⟨fun s => mem_spansFrom_iff_licensed cut, fun s => startLine_le_endLine cut,
    pairwise_spansFrom cut, ?_, fun i => exists_covers_iff_isOpenAt cut⟩
  rw [m.content_excise, ← keptLines_eq_outside cut]

end Expunge
