import Expunge.Proofs.Content.Spans

/-!
# What excision leaves as it is

The output of an excision is made of the lines outside of the reported spans. Putting the lines of
the spans back where they were gives the content again (`putBack`), so nothing else is lost, and
an output from which a span was removed is smaller.
-/

namespace Expunge
set_option autoImplicit false
open Text

/-- The lines of `ls` in the spans, put back between kept lines; `first` is the number of the line
that comes next. -/
def putBack (ls : List Line) (first : Nat) : List Span → List Line → List Line
  | [], kept => kept
  | s :: ss, kept =>
    kept.take (s.startLine - first) ++ s.slice ls ++
      putBack ls (s.endLine + 1) ss (kept.drop (s.startLine - first))

section Scan

variable {opens closes : Line → Bool} {license : List Char} {p : Piece} {ps : List Piece}

/-- Lines before the first span come first. -/
theorem putBack_append {ls as bs : List Line} {first : Nat} {spans : List Span}
    (later : ∀ s ∈ spans, first + as.length ≤ s.startLine) :
    putBack ls first spans (as ++ bs) = as ++ putBack ls (first + as.length) spans bs := by
  cases spans with
  | nil => rfl
  | cons s ss =>
    have start := later s (by simp)
    have split : s.startLine - first = as.length + (s.startLine - (first + as.length)) := by omega
    rw [putBack, putBack, split, List.take_length_add_append, List.drop_length_add_append]
    simp

/-- Putting the licensed pieces back gives all lines. -/
theorem putBack_keptLines (license : List Char) (cut : Partition opens closes ps)
    (before : List Line) :
    putBack (before ++ ps.flatMap Piece.lines) (before.length + 1)
      (spansFrom license (before.length + 1) ps) (keptLines license ps) =
        ps.flatMap Piece.lines := by
  induction ps generalizing before with
  | nil => rfl
  | cons p ps ih =>
    have some := Piece.length_lines_pos (cut.right p (by simp))
    have rest := ih cut.tail (before ++ p.lines)
    rw [List.append_assoc, List.length_append] at rest
    have next : before.length + 1 + p.lines.length = before.length + p.lines.length + 1 := by omega
    rw [spansFrom_cons, List.flatMap_cons, next]
    cases licensed : p.licensed license with
    | true =>
      have ends : (p.span (before.length + 1)).endLine + 1 = before.length + p.lines.length + 1 := by
        simp only [Piece.span]
        omega
      have kept : keptLines license (p :: ps) = keptLines license ps := by
        simp [keptLines, licensed]
      rw [if_pos rfl, putBack, slice_span, ends, kept,
        show (p.span (before.length + 1)).startLine = before.length + 1 from rfl]
      simpa using rest
    | false =>
      have kept : keptLines license (p :: ps) = p.lines ++ keptLines license ps := by
        simp [keptLines, licensed]
      rw [if_neg (by simp), kept, putBack_append, next, rest]
      intro s hs
      have := le_startLine hs
      omega

/-- The kept lines lack the size of each licensed piece. -/
theorem weightOfLines_keptLines_le (w : Char → Nat) (mem : p ∈ ps)
    (licensed : p.licensed license = true) :
    weightOfLines w (keptLines license ps) + weightOfLines w p.lines ≤
      weightOfLines w (ps.flatMap Piece.lines) := by
  have shrinks : ∀ qs : List Piece, weightOfLines w (keptLines license qs) ≤
      weightOfLines w (qs.flatMap Piece.lines) := by
    intro qs
    induction qs with
    | nil => exact Nat.le_refl _
    | cons q qs ih =>
      rw [List.flatMap_cons, weightOfLines_append]
      cases h : q.licensed license <;> simp [keptLines, h] at ih ⊢ <;> omega
  obtain ⟨before, after, rfl⟩ := List.append_of_mem mem
  have first := shrinks before
  have last := shrinks after
  simp [keptLines, licensed] at first last ⊢
  omega

end Scan

/-- A licensed piece holds a line that is not empty, if the opening marker is not. -/
theorem lt_weightOfLines_of_licensed {m : Markers} {license : List Char} {p : Piece}
    {w : Char → Nat} (right : p.IsRight m.opens m.closes) (licensed : p.licensed license = true)
    (marked : m.opening ≠ "") (pos : ∀ c, 0 < w c) : w '\n' < weightOfLines w p.lines := by
  cases p with
  | plain l => simp [Piece.licensed] at licensed
  | snippet body closed =>
    obtain ⟨l, rest, rfl, starts⟩ := IsSnippet.exists_cons right
    cases l with
    | nil =>
      rw [Markers.opens, occursIn_iff, List.infix_nil, String.toList_eq_nil_iff] at starts
      exact absurd starts marked
    | cons c cs =>
      have := pos c
      rw [Piece.lines, weightOfLines_cons, weight_cons]
      omega

namespace Markers

/-- An excision that removed a span makes the content smaller. -/
theorem utf8ByteSize_excise_lt {m : Markers} {content : String}
    (changed : (m.excise content).spans ≠ []) (marked : m.opening ≠ "") :
    (m.excise content).content.utf8ByteSize < content.utf8ByteSize := by
  obtain ⟨s, hs⟩ := List.exists_mem_of_ne_nil _ changed
  rw [m.spans_excise content] at hs
  obtain ⟨before, p, after, e, licensed, -⟩ := mem_spansFrom.1 hs
  have mem : p ∈ m.piecesOf content := by simp [e]
  have lost := weightOfLines_keptLines_le Char.utf8Size mem licensed
  have line := lt_weightOfLines_of_licensed ((m.partition_piecesOf content).right p mem) licensed
    marked Char.utf8Size_pos
  have smaller : weightOfLines Char.utf8Size (keptLines m.license.toList (m.piecesOf content)) +
      Char.utf8Size '\n' < weightOfLines Char.utf8Size (lines content.toList) := by
    rw [m.flatMap_lines_piecesOf] at lost
    omega
  have less := weight_unlines_lt Char.utf8Size (Char.utf8Size_pos '\n') smaller
  rw [unlines_lines] at less
  rwa [m.content_excise, utf8ByteSize_eq, utf8ByteSize_eq content, String.toList_ofList]

/-- **Excision changes nothing outside of the spans it reports.** The output is the join of the
other lines, the lines of the spans complete it to the content, and where a span was removed the
output is smaller than the content. -/
theorem excise_outside (m : Markers) (content : String) :
    let ls := lines content.toList
    let e := m.excise content
    let kept := outside e.spans 1 ls
    e.removed = e.spans.length ∧
      e.content = String.ofList (unlines kept) ∧
      (kept ≠ [] → lines e.content.toList = kept) ∧
      (kept = [] → e.content = "") ∧
      (e.spans = [] → e.content = content) ∧
      String.ofList (unlines (putBack ls 1 e.spans kept)) = content ∧
      (e.spans ≠ [] → m.opening ≠ "" → e.content.utf8ByteSize < content.utf8ByteSize) := by
  intro ls e kept
  have cut := m.partition_piecesOf content
  have whole : (m.piecesOf content).flatMap Piece.lines = ls := m.flatMap_lines_piecesOf content
  have spans : e.spans = spansFrom m.license.toList 1 (m.piecesOf content) :=
    m.spans_excise content
  have same : kept = keptLines m.license.toList (m.piecesOf content) := by
    rw [keptLines_eq_outside cut, whole, ← spans]
  have joined : e.content = String.ofList (unlines kept) := same ▸ m.content_excise content
  refine ⟨rfl, joined, fun some => ?_, fun none => ?_, fun none => ?_, ?_, utf8ByteSize_excise_lt⟩
  · rw [same] at some ⊢
    exact lines_content_excise some
  · rw [joined, none]
    rfl
  · exact congrArg Excision.content (excise_of_spans_eq_nil none)
  · have back := putBack_keptLines m.license.toList cut []
    rw [List.nil_append, List.length_nil, whole, ← spans, ← same] at back
    rw [back, unlines_lines, String.ofList_toList]

end Markers
end Expunge
