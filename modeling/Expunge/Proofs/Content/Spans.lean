import Expunge.Proofs.Content.Partition

/-!
# The spans of a scan

A span speaks of lines by their numbers, a piece holds the lines themselves. `mem_spansFrom`
finds the piece behind a span, `pairwise_spansFrom` puts the spans in order, and
`keptLines_eq_outside` says that the lines which excision keeps are those whose number lies in no
span.
-/

namespace Expunge
set_option autoImplicit false
open Text

namespace Span

/-- The line with the given number is in the span. -/
def covers (s : Span) (i : Nat) : Bool := decide (s.startLine ≤ i ∧ i ≤ s.endLine)

theorem covers_iff {s : Span} {i : Nat} : s.covers i = true ↔ s.startLine ≤ i ∧ i ≤ s.endLine := by
  simp [covers]

/-- The lines from the first to the last one of the span. -/
def slice (s : Span) (ls : List Line) : List Line :=
  (ls.drop (s.startLine - 1)).take (s.endLine + 1 - s.startLine)

end Span

/-- The lines whose number lies in no span, if the first one has the number `first`. -/
def outside (spans : List Span) (first : Nat) (ls : List Line) : List Line :=
  ((ls.zipIdx first).filter fun l => !spans.any (·.covers l.2)).map (·.1)

/-- The span of a piece that starts at the line `first`. -/
def Piece.span (p : Piece) (first : Nat) : Span := ⟨first, first + p.lines.length - 1, p.closed⟩

/-- The span of a piece speaks of the lines of the piece. -/
theorem slice_span (p : Piece) (before after : List Line) :
    (p.span (before.length + 1)).slice (before ++ (p.lines ++ after)) = p.lines := by
  simp [Span.slice, Piece.span]

section Scan

variable {opens closes : Line → Bool} {license : List Char} {first : Nat} {p : Piece}
  {ps : List Piece} {s : Span}

theorem spansFrom_cons (license : List Char) (first : Nat) (p : Piece) (ps : List Piece) :
    spansFrom license first (p :: ps) =
      if p.licensed license then p.span first :: spansFrom license (first + p.lines.length) ps
      else spansFrom license (first + p.lines.length) ps := rfl

/-- A span belongs to a licensed piece and starts after the pieces before that one. -/
theorem mem_spansFrom : s ∈ spansFrom license first ps ↔
    ∃ before p after, ps = before ++ p :: after ∧ p.licensed license = true ∧
      s = p.span (first + (before.flatMap Piece.lines).length) := by
  induction ps generalizing first with
  | nil => simp [spansFrom]
  | cons p ps ih =>
    have later : s ∈ spansFrom license (first + p.lines.length) ps ↔
        ∃ before q after, p :: ps = (p :: before) ++ q :: after ∧ q.licensed license = true ∧
          s = q.span (first + ((p :: before).flatMap Piece.lines).length) := by
      simp [ih, Nat.add_assoc]
    rw [spansFrom_cons]
    constructor
    · intro h
      have h : p.licensed license = true ∧ s = p.span first ∨
          s ∈ spansFrom license (first + p.lines.length) ps := by
        split at h <;> simp_all
      rcases h with ⟨licensed, rfl⟩ | h
      · exact ⟨[], p, ps, rfl, licensed, by simp⟩
      · obtain ⟨before, q, after, e, rest⟩ := later.1 h
        exact ⟨p :: before, q, after, e, rest⟩
    · rintro ⟨before, q, after, e, licensed, rfl⟩
      cases before with
      | nil =>
        obtain ⟨rfl, rfl⟩ := List.cons.inj e
        simp [licensed]
      | cons b before =>
        obtain ⟨rfl, e'⟩ := List.cons.inj e
        have mem := later.2 ⟨before, q, after, e, licensed, rfl⟩
        split
        · exact List.mem_cons_of_mem _ mem
        · exact mem

/-- No span starts before the first line. -/
theorem le_startLine (h : s ∈ spansFrom license first ps) : first ≤ s.startLine := by
  obtain ⟨before, p, after, -, -, rfl⟩ := mem_spansFrom.1 h
  exact Nat.le_add_right _ _

/-- A span holds its first line. -/
theorem startLine_le_endLine (cut : Partition opens closes ps)
    (h : s ∈ spansFrom license first ps) : s.startLine ≤ s.endLine := by
  obtain ⟨before, p, after, rfl, -, rfl⟩ := mem_spansFrom.1 h
  have some := Piece.length_lines_pos (cut.right p (by simp))
  simp only [Piece.span]
  omega

/-- A span ends before the next one starts, and is closed if there is a next one. -/
theorem pairwise_spansFrom (cut : Partition opens closes ps) :
    (spansFrom license first ps).Pairwise
      fun a b => a.endLine < b.startLine ∧ a.terminated = true := by
  induction ps generalizing first with
  | nil => exact .nil
  | cons p ps ih =>
    rw [spansFrom_cons]
    split
    · refine List.pairwise_cons.2 ⟨fun b hb => ?_, ih cut.tail⟩
      have start := le_startLine hb
      have some := Piece.length_lines_pos (cut.right p (by simp))
      have closed : p.closed = true := by
        rcases (Partition.cons_iff.1 cut).2.1 with rfl | closed
        · simp [spansFrom] at hb
        · exact closed
      refine ⟨?_, closed⟩
      simp only [Piece.span]
      omega
    · exact ih cut.tail

theorem outside_append (spans : List Span) (first : Nat) (as bs : List Line) :
    outside spans first (as ++ bs) =
      outside spans first as ++ outside spans (first + as.length) bs := by
  simp [outside, List.zipIdx_append, List.filter_append]

/-- Every line is outside of no spans. -/
@[simp] theorem outside_nil (first : Nat) (ls : List Line) : outside [] first ls = ls := by
  have all : ((ls.zipIdx first).filter fun l => !([] : List Span).any (·.covers l.2)) =
      ls.zipIdx first := List.filter_eq_self.2 fun _ _ => rfl
  rw [outside, all, List.zipIdx_map_fst]

/-- What is outside depends on the spans that reach the lines alone. -/
theorem outside_congr {spans spans' : List Span} {ls : List Line}
    (same : ∀ i, first ≤ i → i < first + ls.length →
      spans.any (·.covers i) = spans'.any (·.covers i)) :
    outside spans first ls = outside spans' first ls := by
  refine congrArg _ (List.filter_congr fun l hl => ?_)
  obtain ⟨low, high, -⟩ := List.mem_zipIdx hl
  rw [same l.2 low (by omega)]

/-- Lines that a span covers are not outside. -/
theorem outside_eq_nil {spans : List Span} {ls : List Line}
    (within : ∀ i, first ≤ i → i < first + ls.length → spans.any (·.covers i) = true) :
    outside spans first ls = [] := by
  have none : ((ls.zipIdx first).filter fun l => !spans.any (·.covers l.2)) = [] := by
    rw [List.filter_eq_nil_iff]
    intro l hl
    obtain ⟨low, high, -⟩ := List.mem_zipIdx hl
    simp [within l.2 low (by omega)]
  rw [outside, none, List.map_nil]

/-- The kept lines are those whose number lies in no span. -/
theorem keptLines_eq_outside (cut : Partition opens closes ps) :
    keptLines license ps =
      outside (spansFrom license first ps) first (ps.flatMap Piece.lines) := by
  induction ps generalizing first with
  | nil => rfl
  | cons p ps ih =>
    have some := Piece.length_lines_pos (cut.right p (by simp))
    have later : ∀ i < first + p.lines.length,
        (spansFrom license (first + p.lines.length) ps).any (·.covers i) = false := by
      intro i hi
      rw [List.any_eq_false]
      intro s hs
      have := le_startLine hs
      simp only [Span.covers_iff]
      omega
    rw [List.flatMap_cons, outside_append, spansFrom_cons]
    cases licensed : p.licensed license with
    | true =>
      have here : outside (p.span first :: spansFrom license (first + p.lines.length) ps) first
          p.lines = [] := by
        apply outside_eq_nil
        intro i low high
        have inside : (p.span first).covers i = true := by
          rw [Span.covers_iff]
          simp only [Piece.span]
          omega
        simp [inside]
      have rest : outside (p.span first :: spansFrom license (first + p.lines.length) ps)
          (first + p.lines.length) (ps.flatMap Piece.lines) = keptLines license ps := by
        rw [ih cut.tail]
        apply outside_congr
        intro i low high
        have beyond : (p.span first).covers i = false := by
          rw [← Bool.not_eq_true, Span.covers_iff]
          simp only [Piece.span]
          omega
        simp [beyond]
      rw [if_pos rfl, here, rest]
      simp [keptLines, licensed]
    | false =>
      have here : outside (spansFrom license (first + p.lines.length) ps) first p.lines =
          p.lines := by
        refine (outside_congr fun i low high => ?_).trans (outside_nil first p.lines)
        simpa using later i high
      rw [if_neg (by simp), here, ← ih cut.tail]
      simp [keptLines, licensed]

/-- Without spans every line is kept. -/
theorem keptLines_of_spans_eq_nil (none : spansFrom license first ps = []) :
    keptLines license ps = ps.flatMap Piece.lines := by
  have count := length_spansFrom license first ps
  rw [none, List.length_nil, eq_comm, List.countP_eq_zero] at count
  rw [keptLines, List.filter_eq_self.2 fun p hp => by simpa using count p hp]

end Scan

namespace Markers

/-- The pieces of a text are a partition of its lines. -/
theorem partition_piecesOf (m : Markers) (content : String) :
    Partition m.opens m.closes (m.piecesOf content) :=
  partition_pieces m.opens m.closes _

theorem flatMap_lines_piecesOf (m : Markers) (content : String) :
    (m.piecesOf content).flatMap Piece.lines = lines content.toList :=
  flatMap_lines_pieces m.opens m.closes _

/-- The content of an excision is made of the kept lines, also where nothing was removed. -/
theorem content_excise (m : Markers) (content : String) : (m.excise content).content =
    String.ofList (unlines (keptLines m.license.toList (m.piecesOf content))) := by
  unfold excise
  dsimp only
  split
  · rename_i none
    rw [keptLines_of_spans_eq_nil none, flatMap_lines_piecesOf, unlines_lines,
      String.ofList_toList]
  · rfl

/-- The lines outside the spans of an excision are the kept ones. -/
theorem outside_spans_excise (m : Markers) (content : String) :
    outside (m.excise content).spans 1 (lines content.toList) =
      keptLines m.license.toList (m.piecesOf content) := by
  rw [keptLines_eq_outside (m.partition_piecesOf content), flatMap_lines_piecesOf, spans_excise]

/-- The content of an excision is the text of the lines outside its spans. -/
theorem content_excise_outside (m : Markers) (content : String) : (m.excise content).content =
    String.ofList (unlines (outside (m.excise content).spans 1 (lines content.toList))) := by
  rw [outside_spans_excise, content_excise]

/-- Without a span the content stays as it is. -/
theorem excise_of_spans_eq_nil {m : Markers} {content : String}
    (none : (m.excise content).spans = []) : m.excise content = ⟨content, []⟩ := by
  rw [spans_excise] at none
  unfold excise
  dsimp only
  rw [none]

/-- The kept lines are lines of the text. -/
theorem keptLines_subset (m : Markers) (content : String) :
    keptLines m.license.toList (m.piecesOf content) ⊆ lines content.toList := by
  rw [← m.flatMap_lines_piecesOf content]
  intro l hl
  obtain ⟨p, hp, mem⟩ := List.mem_flatMap.1 hl
  exact List.mem_flatMap.2 ⟨p, (List.mem_filter.1 hp).1, mem⟩

/-- The output splits back to the kept lines, unless there are none. -/
theorem lines_content_excise {m : Markers} {content : String}
    (some : keptLines m.license.toList (m.piecesOf content) ≠ []) :
    lines (m.excise content).content.toList =
      keptLines m.license.toList (m.piecesOf content) := by
  rw [content_excise, String.toList_ofList]
  exact lines_unlines_of_subset (m.keptLines_subset content) some

end Markers
end Expunge
