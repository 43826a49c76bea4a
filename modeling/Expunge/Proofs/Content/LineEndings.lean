import Expunge.Content.Decision
import Expunge.Proofs.Content.Leading
import Expunge.Proofs.Content.Spans
import Expunge.Proofs.Text.Returns

/-!
# Other line ends

A text and the same text with a carriage return in front of each line feed are decided on in the same
way: the leading comment has the same kind and as many lines, and the same snippets are removed. What is
left is the same up to the line ends too, but where the last line, which alone has no line end, is
removed: then the line before it keeps its carriage return (`ofContent_toCrlf`).
-/

namespace Expunge
set_option autoImplicit false
open Text

variable {m : Markers} {t : CommentTokens} {ls ls' : List Line} {content : String}

/-- The token holds neither of the characters that end a line. -/
def IsPlain (token : String) : Prop := '\r' ∉ token.toList ∧ '\n' ∉ token.toList

instance (token : String) : Decidable (IsPlain token) := inferInstanceAs (Decidable (_ ∧ _))

/-- No marker reaches over the end of a line. -/
structure Markers.ArePlain (m : Markers) : Prop where
  license : IsPlain m.license
  opening : IsPlain m.opening
  closing : IsPlain m.closing

/-- No comment token reaches over the end of a line. -/
structure CommentTokens.ArePlain (t : CommentTokens) : Prop where
  blockOpen : IsPlain t.blockOpen
  blockClose : IsPlain t.blockClose
  line : IsPlain t.line

/-- The content with a carriage return in front of each line feed. -/
def toCrlf (content : String) : String := String.ofList (addReturns content.toList)

theorem IsPlain.occursIn_eq {token : String} (plain : IsPlain token) {l l' : Line}
    (same : SameLine l l') : occursIn token.toList l' = occursIn token.toList l := by
  rw [Bool.eq_iff_iff, occursIn_iff, occursIn_iff, same.infix_iff plain.1]

/-! ### The leading comment -/

/-- Two comments of one kind, with the same lines up to carriage returns. -/
structure LeadingComment.Alike (c c' : LeadingComment) : Prop where
  style : c'.style = c.style
  lines : List.Forall₂ SameLine c.lines c'.lines

theorem LeadingComment.Alike.contains_eq {c c' : LeadingComment} (h : c.Alike c') {token : String}
    (plain : IsPlain token) : c'.contains token = c.contains token := by
  rw [Bool.eq_iff_iff, contains, contains, occursIn_iff, occursIn_iff, text, text,
    infix_unlines_iff_of_same plain.1 plain.2 h.lines]

theorem trim_headD_eq (same : List.Forall₂ SameLine ls ls') :
    trim (ls'.headD []) = trim (ls.headD []) := by
  cases same with
  | nil => rfl
  | cons here _ => exact here.trim_eq

theorem CommentTokens.continuesRun_eq {l l' : Line} (same : SameLine l l') :
    t.continuesRun l' = t.continuesRun l := by
  rw [continuesRun, continuesRun, same.trim_eq]

/-- The comments of lines that are the same up to carriage returns. -/
theorem CommentTokens.commentOf_alike (plain : t.ArePlain) (same : List.Forall₂ SameLine ls ls') :
    Option.Rel LeadingComment.Alike (t.commentOf ls) (t.commentOf ls') := by
  have head := trim_headD_eq same
  have block' : t.OpensBlock ls' ↔ t.OpensBlock ls := by rw [OpensBlock, OpensBlock, head]
  have line' : t.OpensLine ls' ↔ t.OpensLine ls := by rw [OpensLine, OpensLine, head]
  by_cases block : t.OpensBlock ls
  · rw [commentOf_of_block block, commentOf_of_block (block'.2 block)]
    exact .some ⟨rfl, forall₂_takeThrough (fun _ _ => plain.blockClose.occursIn_eq) same⟩
  · by_cases line : t.OpensLine ls
    · rw [commentOf_of_line block line, commentOf_of_line (mt block'.1 block) (line'.2 line)]
      exact .some ⟨rfl, forall₂_takeWhile (fun _ _ => continuesRun_eq) same⟩
    · rw [commentOf_eq_none_iff.2 ⟨block, line⟩,
        commentOf_eq_none_iff.2 ⟨mt block'.1 block, mt line'.1 line⟩]
      exact .none

theorem CommentTokens.leadingComment_toCrlf (plain : t.ArePlain) (content : String) :
    Option.Rel LeadingComment.Alike (t.leadingComment content)
      (t.leadingComment (toCrlf content)) := by
  rw [leadingComment, leadingComment, toCrlf, String.toList_ofList, trim_addReturns,
    lines_addReturns]
  exact commentOf_alike plain (forall₂_returnedLines _)

theorem isProprietary_toCrlf (license : IsPlain m.license) (plain : t.ArePlain) (content : String) :
    isProprietary m t (toCrlf content) = isProprietary m t content := by
  have alike := CommentTokens.leadingComment_toCrlf plain content
  rw [isProprietary, isProprietary]
  generalize t.leadingComment content = c, t.leadingComment (toCrlf content) = c' at alike
  cases alike with
  | none => rfl
  | some alike => exact alike.contains_eq license

/-! ### The snippets -/

section Scan

variable {opens closes : Line → Bool} {license : List Char} {R : Line → Line → Prop}

/-- A scan of lines that are alike finds the same spans, if the tests do not tell them apart. -/
theorem spansFrom_pieces_congr (opens_eq : ∀ l l', R l l' → opens l' = opens l)
    (closes_eq : ∀ l l', R l l' → closes l' = closes l)
    (license_eq : ∀ body body', List.Forall₂ R body body' →
      occursIn license (unlines body') = occursIn license (unlines body))
    (first : Nat) (same : List.Forall₂ R ls ls') :
    spansFrom license first (pieces opens closes ls') =
      spansFrom license first (pieces opens closes ls) := by
  fun_induction pieces opens closes ls generalizing ls' first with
  | case1 =>
    cases same
    simp [pieces]
  | case2 l ls starts ih =>
    have body := forall₂_takeThrough closes_eq same
    have shut := any_eq_of_forall₂ closes_eq same
    have behind := forall₂_dropThrough closes_eq same
    obtain ⟨l', rest, here, -, rfl⟩ := List.forall₂_cons_left_iff.1 same
    rw [pieces, if_pos (by rw [opens_eq _ _ here, starts]), spansFrom_cons, spansFrom_cons,
      ih _ behind, shut]
    simp only [Piece.licensed, Piece.span, Piece.lines, Piece.closed, license_eq _ _ body,
      body.length_eq]
  | case3 l ls plain ih =>
    obtain ⟨l', rest, here, behind, rfl⟩ := List.forall₂_cons_left_iff.1 same
    rw [pieces, if_neg (by rw [opens_eq _ _ here]; exact plain), spansFrom_cons, spansFrom_cons]
    simpa [Piece.licensed, Piece.lines] using ih _ behind

end Scan

theorem Markers.spans_excise_toCrlf (plain : m.ArePlain) (content : String) :
    (m.excise (toCrlf content)).spans = (m.excise content).spans := by
  rw [spans_excise, spans_excise, piecesOf, piecesOf, toCrlf, String.toList_ofList, lines_addReturns]
  refine spansFrom_pieces_congr (R := SameLine) (fun _ _ => plain.opening.occursIn_eq)
    (fun _ _ => plain.closing.occursIn_eq) (fun body body' same => ?_) 1 (forall₂_returnedLines _)
  rw [Bool.eq_iff_iff, occursIn_iff, occursIn_iff,
    infix_unlines_iff_of_same plain.license.1 plain.license.2 same]

/-! ### What is left -/

theorem outside_map (f : Line → Line) (spans : List Span) (first : Nat) (ls : List Line) :
    outside spans first (ls.map f) = (outside spans first ls).map f := by
  rw [outside, outside, List.zipIdx_map, List.filter_map, List.map_map, List.map_map]
  rfl

theorem outside_singleton (spans : List Span) (first : Nat) (l : Line) :
    outside spans first [l] = if spans.any (·.covers first) then [] else [l] := by
  rw [outside, List.zipIdx_singleton, List.filter_singleton]
  cases spans.any (·.covers first) <;> rfl

/-- The last of the lines is in a span, and another line is in none. -/
def CutsEnd (spans : List Span) (ls : List Line) : Prop :=
  (∃ s ∈ spans, s.covers ls.length = true) ∧ outside spans 1 ls ≠ []

instance (spans : List Span) (ls : List Line) : Decidable (CutsEnd spans ls) :=
  inferInstanceAs (Decidable (_ ∧ _))

/-- The lines with carriage returns that lie outside of spans, as a text: the last of them has kept its
carriage return if it was not the last line. -/
theorem unlines_outside_returnedLines (spans : List Span) (some : ls ≠ []) :
    unlines (outside spans 1 (returnedLines ls)) =
      unlines (returnedLines (outside spans 1 ls)) ++ if CutsEnd spans ls then ['\r'] else [] := by
  obtain ⟨front, l, rfl⟩ := (List.eq_nil_or_concat ls).resolve_left some
  rw [List.concat_eq_append]
  have kept : outside spans 1 (front ++ [l]) = outside spans 1 front ++
      if spans.any (·.covers (front.length + 1)) then [] else [l] := by
    rw [outside_append, outside_singleton, Nat.add_comm 1]
  have cuts : CutsEnd spans (front ++ [l]) ↔
      spans.any (·.covers (front.length + 1)) = true ∧ outside spans 1 front ≠ [] := by
    rw [CutsEnd, ← List.any_eq_true, List.length_append, List.length_singleton, kept]
    refine and_congr_right fun covered => ?_
    rw [if_pos covered, List.append_nil]
  rw [returnedLines_concat, outside_append, outside_map, outside_singleton, List.length_map,
    Nat.add_comm 1, kept]
  cases covered : spans.any (·.covers (front.length + 1)) with
  | true =>
    rw [if_pos rfl, List.append_nil, List.append_nil]
    by_cases none : outside spans 1 front = []
    · rw [if_neg fun h => (cuts.1 h).2 none, none]
      rfl
    · rw [if_pos (cuts.2 ⟨covered, none⟩), unlines_map_return none]
  | false =>
    have whole : ¬ CutsEnd spans (front ++ [l]) := fun h => by simpa [covered] using cuts.1 h
    rw [if_neg Bool.false_ne_true, if_neg whole, returnedLines_concat, List.append_nil]

/-- The excision of a text with carriage returns. -/
theorem Markers.excise_toCrlf (plain : m.ArePlain) (content : String) :
    m.excise (toCrlf content) =
      ⟨toCrlf (m.excise content).content ++
        if CutsEnd (m.excise content).spans (lines content.toList) then "\r" else "",
        (m.excise content).spans⟩ := by
  have spans := spans_excise_toCrlf plain content
  have kept : ∀ l ∈ outside (m.excise content).spans 1 (lines content.toList), '\n' ∉ l := by
    rw [outside_spans_excise]
    exact fun l mem => newline_notMem_of_mem_lines (keptLines_subset m content mem)
  have text : (m.excise (toCrlf content)).content = toCrlf (m.excise content).content ++
      if CutsEnd (m.excise content).spans (lines content.toList) then "\r" else "" := by
    rw [content_excise_outside, spans, toCrlf, String.toList_ofList, lines_addReturns,
      unlines_outside_returnedLines _ (lines_ne_nil _), String.ofList_append, toCrlf,
      content_excise_outside, String.toList_ofList, addReturns_unlines kept]
    split <;> rfl
  rw [← text, ← spans]

namespace Decision

/-- Two decisions of one kind, on a text with the lines `ls` and on the text with carriage returns. The
same spans are removed, and what is left is the same up to the carriage returns; one more is left at the
end if the last line is removed and another one is not. -/
inductive Alike (ls : List Line) : Decision → Decision → Prop
  | keep : Alike ls .keep .keep
  | delete : Alike ls .delete .delete
  | replace (left : String) (removed : Nat) (spans : List Span) : Alike ls
      (.replace left removed spans)
      (.replace (toCrlf left ++ if CutsEnd spans ls then "\r" else "") removed spans)

/-- A text that is not proprietary as a whole and has no span is kept. -/
theorem ofContent_of_spans_eq_nil (shared : isProprietary m t content = false)
    (none : (m.excise content).spans = []) : ofContent m t content = .keep := by
  rw [ofContent, if_neg (by simp [shared])]
  exact if_neg (by simp [Excision.isChanged_iff, none])

theorem ofContent_of_spans_ne_nil (shared : isProprietary m t content = false)
    (some : (m.excise content).spans ≠ []) : ofContent m t content =
      .replace (m.excise content).content (m.excise content).removed (m.excise content).spans :=
  ofContent_eq_replace_iff.2 ⟨shared, rfl, rfl, some⟩

/-- **Line ends have no say in a decision.** With a carriage return in front of each line feed the
leading comment is of the same kind and length, and the decision is the same, up to the carriage returns
in what is left of the text. -/
theorem ofContent_toCrlf (markers : m.ArePlain) (tokens : t.ArePlain) (content : String) :
    Option.Rel (fun c c' => c'.style = c.style ∧ c'.lines.length = c.lines.length)
        (t.leadingComment content) (t.leadingComment (toCrlf content)) ∧
      Alike (lines content.toList) (ofContent m t content) (ofContent m t (toCrlf content)) := by
  constructor
  · have alike := CommentTokens.leadingComment_toCrlf tokens content
    generalize t.leadingComment content = c, t.leadingComment (toCrlf content) = c' at alike ⊢
    cases alike with
    | none => exact .none
    | some alike => exact .some ⟨alike.style, alike.lines.length_eq.symm⟩
  · have whole := isProprietary_toCrlf markers.license tokens content
    cases named : isProprietary m t content with
    | true =>
      rw [ofContent_eq_delete_iff.2 named, ofContent_eq_delete_iff.2 (whole.trans named)]
      exact .delete
    | false =>
      have spans := Markers.spans_excise_toCrlf markers content
      by_cases none : (m.excise content).spans = []
      · rw [ofContent_of_spans_eq_nil named none,
          ofContent_of_spans_eq_nil (whole.trans named) (spans.trans none)]
        exact .keep
      · have some : (m.excise (toCrlf content)).spans ≠ [] := by rwa [spans]
        rw [ofContent_of_spans_ne_nil named none,
          ofContent_of_spans_ne_nil (whole.trans named) some, Markers.excise_toCrlf markers]
        exact .replace _ _ _

/-- A snippet that runs to the end leaves the carriage return of the line before it. -/
theorem ofContent_toCrlf_open_end :
    let m : Markers := ⟨"L", "B", "E"⟩
    let content := "// one\nuse a;\nB\nL"
    m.ArePlain ∧ CommentTokens.ArePlain {} ∧
      Option.Rel (fun c c' => c'.style = c.style ∧ c'.lines.length = c.lines.length)
        (CommentTokens.leadingComment {} content)
        (CommentTokens.leadingComment {} "// one\r\nuse a;\r\nB\r\nL") ∧
      ofContent m {} content = .replace "// one\nuse a;" 1 [⟨3, 4, false⟩] ∧
      ofContent m {} "// one\r\nuse a;\r\nB\r\nL" =
        .replace "// one\r\nuse a;\r" 1 [⟨3, 4, false⟩] := by
  intro m content
  have markers : m.ArePlain := ⟨by decide, by decide, by decide⟩
  have tokens : CommentTokens.ArePlain {} := ⟨by decide, by decide, by decide⟩
  have returned : toCrlf content = "// one\r\nuse a;\r\nB\r\nL" := by decide +kernel
  have first : ofContent m {} content = .replace "// one\nuse a;" 1 [⟨3, 4, false⟩] := by
    decide +kernel
  obtain ⟨comments, decisions⟩ := ofContent_toCrlf markers tokens content
  rw [returned] at comments decisions
  rw [first] at decisions
  refine ⟨markers, tokens, comments, first, ?_⟩
  generalize ofContent m {} "// one\r\nuse a;\r\nB\r\nL" = second at decisions ⊢
  cases decisions
  decide +kernel

end Decision
end Expunge
