import Expunge.Content.Decision
import Expunge.Proofs.Content.Idempotence
import Expunge.Proofs.Text.Trim

/-!
# Deciding again

The look for a leading comment ends at a line of the trimmed text, the settling line. What stands
behind it has no say (`commentOf_append`), unless all of it is blank: then trimming reaches the line
itself and can only shorten the comment (`exists_commentOf_trimEnd`). So a text that is rewritten
below its settling line is kept when it is decided on again, and in any case it is not rewritten
twice.
-/

namespace Expunge
set_option autoImplicit false
open Text

namespace CommentTokens

variable {t : CommentTokens} {front ls rest tail : List Line} {l : Line} {c c' : LeadingComment}
  {j : Nat}

/-- The index of the line at which the look for a leading comment ends: the first line if there is
no comment, the line that closes a block, and the first line after a run. -/
def settling? (t : CommentTokens) (ls : List Line) : Option Nat :=
  let first := trim (ls.headD [])
  if startsWith t.blockOpen.toList first then ls.findIdx? (occursIn t.blockClose.toList)
  else if startsWith t.line.toList first then ls.findIdx? fun l => !t.continuesRun l
  else some 0

/-- How many blank lines trimming drops in front; a blank text is trimmed at its first line. -/
def blankLines (ls : List Line) : Nat := (ls.findIdx? fun l => !allBlank l).getD 0

/-- The number of the settling line of a content. -/
def settlingLine? (t : CommentTokens) (content : String) : Option Nat :=
  (t.settling? (lines (trim content.toList))).map fun j =>
    blankLines (lines content.toList) + j + 1

/-! ### What stands behind the settling line -/

theorem takeThrough_append (p : Line → Bool) (found : (ls.findIdx? p).isSome) (rest : List Line) :
    takeThrough p (ls ++ rest) = takeThrough p ls := by
  rcases none_or_first p ls with none | ⟨before, l, after, rfl, none, here⟩
  · rw [List.findIdx?_isSome, List.any_eq_true] at found
    obtain ⟨l, mem, here⟩ := found
    rw [none l mem] at here
    exact absurd here Bool.false_ne_true
  · rw [List.append_assoc, List.cons_append, takeThrough_append_cons none here,
      takeThrough_append_cons none here]

theorem takeWhile_append {p : Line → Bool} (found : (ls.findIdx? fun l => !p l).isSome)
    (rest : List Line) : (ls ++ rest).takeWhile p = ls.takeWhile p := by
  rw [List.takeWhile_append, if_neg]
  intro whole
  rw [List.findIdx?_isSome, List.any_eq_true] at found
  obtain ⟨l, mem, stops⟩ := found
  rw [← ((List.takeWhile_prefix p).eq_of_length whole)] at mem
  simp [List.mem_takeWhile_imp mem] at stops

/-- Lines behind the settling line have no say. -/
theorem commentOf_append (settled : (t.settling? ls).isSome) (some : ls ≠ []) (rest : List Line) :
    t.commentOf (ls ++ rest) = t.commentOf ls := by
  obtain ⟨l, tail, rfl⟩ := List.exists_cons_of_ne_nil some
  have head : (l :: tail ++ rest).headD [] = (l :: tail).headD [] := rfl
  simp only [settling?] at settled
  simp only [commentOf, head]
  split at settled
  · rename_i block
    rw [if_pos block, if_pos block, takeThrough_append _ settled]
  · rename_i noBlock
    rw [if_neg noBlock, if_neg noBlock]
    split at settled
    · rename_i run
      rw [if_pos run, if_pos run, takeWhile_append settled]
    · rename_i noRun
      rw [if_neg noRun, if_neg noRun]

/-- A settling line among the first lines is there without the others. -/
theorem settling?_of_append (h : t.settling? (ls ++ rest) = some j) (early : j < ls.length) :
    t.settling? ls = some j := by
  obtain ⟨l, tail, rfl⟩ : ∃ l tail, ls = l :: tail :=
    List.exists_cons_of_ne_nil fun e => by simp [e] at early
  have head : (l :: tail ++ rest).headD [] = (l :: tail).headD [] := rfl
  have first : ∀ p : Line → Bool, (l :: tail ++ rest).findIdx? p = some j →
      (l :: tail).findIdx? p = some j := by
    intro p found
    rw [List.findIdx?_append] at found
    cases here : (l :: tail).findIdx? p with
    | some i => rwa [here] at found
    | none =>
      rw [here, Option.none_or, Option.map_eq_some_iff] at found
      obtain ⟨i, -, rfl⟩ := found
      exact absurd early (by omega)
  simp only [settling?, head] at h ⊢
  split at h
  · rename_i block
    rw [if_pos block, first _ h]
  · rename_i noBlock
    rw [if_neg noBlock]
    split at h
    · rename_i run
      rw [if_pos run, first _ h]
    · rename_i noRun
      rw [if_neg noRun, h]

/-! ### Trimming at the settling line -/

/-- A block whose last lines are trimmed is a start of the block. -/
theorem takeThrough_trimEnd_prefix (p : Line → Bool) (front tail : List Line) (l : Line) :
    unlines (takeThrough p (front ++ [trimEnd l])) <+:
      unlines (takeThrough p (front ++ l :: tail)) := by
  rcases none_or_first p front with none | ⟨before, k, after, rfl, none, here⟩
  · -- no line in front closes the block, so it goes on to the trimmed line
    have skip : ∀ more, takeThrough p (front ++ more) = front ++ takeThrough p more := by
      intro more
      induction front with
      | nil => rfl
      | cons k front ih =>
        rw [List.cons_append, takeThrough, if_neg (by simp [none k]),
          ih fun k h => none k (by simp [h])]
        rfl
    obtain ⟨more, e⟩ : ∃ more, takeThrough p (l :: tail) = l :: more := by
      rw [takeThrough]
      split
      · exact ⟨[], rfl⟩
      · exact ⟨_, rfl⟩
    have last : takeThrough p [trimEnd l] = [trimEnd l] := by simp [takeThrough]
    have part := trimEnd_prefix l
    rw [skip, skip, e, last]
    exact unlines_concat_prefix part front more
  · rw [List.append_assoc, List.append_assoc, List.cons_append, List.cons_append,
      takeThrough_append_cons none here, takeThrough_append_cons none here]

theorem continuesRun_trimEnd (t : CommentTokens) (l : Line) :
    t.continuesRun (trimEnd l) = t.continuesRun l := by
  simp only [continuesRun, trim_trimEnd]

/-- A run whose last lines are trimmed is a start of the run. -/
theorem takeWhile_trimEnd_prefix (t : CommentTokens) (front tail : List Line) (l : Line) :
    unlines ((front ++ [trimEnd l]).takeWhile t.continuesRun) <+:
      unlines ((front ++ l :: tail).takeWhile t.continuesRun) := by
  rw [List.takeWhile_append, List.takeWhile_append]
  split
  · cases goesOn : t.continuesRun l with
    | false => simp [goesOn, continuesRun_trimEnd]
    | true =>
      have last : [trimEnd l].takeWhile t.continuesRun = [trimEnd l] := by
        simp [goesOn, continuesRun_trimEnd]
      have part := trimEnd_prefix l
      rw [last, List.takeWhile_cons_of_pos goesOn]
      exact unlines_concat_prefix part front _
  · exact List.prefix_rfl

/-- Trimming the end of a text leaves the start of its leading comment. -/
theorem exists_commentOf_trimEnd (h : t.commentOf (front ++ [trimEnd l]) = some c') :
    ∃ c, t.commentOf (front ++ l :: tail) = some c ∧ c'.text <+: c.text := by
  have head : trim ((front ++ [trimEnd l]).headD []) = trim ((front ++ l :: tail).headD []) := by
    cases front with
    | nil => exact trim_trimEnd l
    | cons k front => rfl
  simp only [commentOf, head] at h ⊢
  split at h
  · rename_i block
    rw [if_pos block]
    rw [Option.some.injEq] at h
    exact ⟨_, rfl, h ▸ takeThrough_trimEnd_prefix _ front tail l⟩
  · rename_i noBlock
    rw [if_neg noBlock]
    split at h
    · rename_i run
      rw [if_pos run]
      rw [Option.some.injEq] at h
      exact ⟨_, rfl, h ▸ takeWhile_trimEnd_prefix t front tail l⟩
    · cases h

/-! ### Other lines behind the settling line -/

/-- The first line that is not blank is the first line of the trimmed text. -/
theorem blankLines_append {blanks : List Line} (blank : ∀ b ∈ blanks, allBlank b = true)
    (shown : allBlank l = false) (ls : List Line) :
    blankLines (blanks ++ l :: ls) = blanks.length := by
  have none : blanks.findIdx? (fun l => !allBlank l) = .none := by
    rw [List.findIdx?_eq_none_iff]
    intro b mem
    simp [blank b mem]
  simp [blankLines, List.findIdx?_append, none, List.findIdx?_cons, shown]

/-- Blank lines in front of a line that is not are all counted. -/
theorem length_le_blankLines (blank : ∀ b ∈ front, allBlank b = true)
    (shown : (front ++ tail).all allBlank = false) : front.length ≤ blankLines (front ++ tail) := by
  rcases none_or_first (fun l => !allBlank l) tail with none | ⟨before, l, after, rfl, none, here⟩
  · have all : (front ++ tail).all allBlank = true := by
      rw [List.all_append, Bool.and_eq_true, List.all_eq_true, List.all_eq_true]
      exact ⟨blank, fun b mem => by simpa using none b mem⟩
    rw [all] at shown
    exact absurd shown (by decide)
  · have blank' : ∀ b ∈ front ++ before, allBlank b = true := by
      intro b mem
      rcases List.mem_append.1 mem with mem | mem
      · exact blank b mem
      · simpa using none b mem
    rw [← List.append_assoc, blankLines_append blank' (by simpa using here), List.length_append]
    exact Nat.le_add_right _ _

/-- Other lines behind the settling line of a text that starts with a line that is not blank. -/
theorem exists_commentOf_of_left {cut left : List Line} (plain : ∀ k ∈ l :: ls ++ cut, '\n' ∉ k)
    (shown : allBlank l = false) (part : left ⊆ cut)
    (settled : t.settling? (lines (trimEnd (unlines (l :: ls ++ cut)))) = some j)
    (early : j < (l :: ls).length)
    (h : t.commentOf (lines (trimEnd (unlines (l :: ls ++ left)))) = some c') :
    ∃ c, t.commentOf (lines (trimEnd (unlines (l :: ls ++ cut)))) = some c ∧ c'.text <+: c.text := by
  have some : l :: ls ≠ [] := List.cons_ne_nil _ _
  have plainLeft : ∀ k ∈ l :: ls ++ left, '\n' ∉ k := by
    intro k mem
    rcases List.mem_append.1 mem with mem | mem
    · exact plain k (List.mem_append_left _ mem)
    · exact plain k (List.mem_append_right _ (part mem))
  rcases lines_trimEnd_append plain some with ⟨drop, whole⟩ | ⟨more, whole⟩
  · have drop' : ∀ b ∈ left, allBlank b = true := fun b mem => drop b (part mem)
    rw [trimEnd_unlines_append_of_blank some drop'] at h
    exact ⟨c', whole ▸ h, List.prefix_rfl⟩
  · rw [whole] at settled
    have inside : (t.settling? (l :: ls)).isSome := by
      rw [settling?_of_append settled early]
      rfl
    rw [whole, commentOf_append inside some]
    rcases lines_trimEnd_append plainLeft some with ⟨-, whole'⟩ | ⟨more', whole'⟩
    · -- nothing but blanks is left behind the settling line, so trimming reaches it
      rcases blank_or_last (l :: ls) with all | ⟨before, k, after, top, shown', drop⟩
      · rw [all l List.mem_cons_self] at shown
        exact absurd shown (by decide)
      · rw [top] at plain h whole' ⊢
        have plain' : ∀ j ∈ before ++ k :: after, '\n' ∉ j :=
          fun j mem => plain j (List.mem_append_left _ mem)
        rw [whole', lines_trimEnd plain' shown' drop] at h
        exact exists_commentOf_trimEnd h
    · rw [whole', commentOf_append inside some] at h
      exact ⟨c', h, List.prefix_rfl⟩

/-- Other lines behind the settling line leave the leading comment as it is, or cut its end off. -/
theorem exists_leadingComment_of_left {cut left : List Line} {content content' : String}
    (whole : lines content.toList = front ++ cut) (other : content'.toList = unlines (front ++ left))
    (part : left ⊆ cut) (settled : t.settlingLine? content = some j) (early : j ≤ front.length)
    (h : t.leadingComment content' = some c') :
    ∃ c, t.leadingComment content = some c ∧ c'.text <+: c.text := by
  have plain : ∀ l ∈ front ++ cut, '\n' ∉ l := fun l mem =>
    newline_notMem_of_mem_lines (whole ▸ mem)
  have joined : content.toList = unlines (front ++ cut) := by rw [← whole, unlines_lines]
  simp only [settlingLine?, leadingComment, whole, Option.map_eq_some_iff] at settled h ⊢
  rw [joined] at settled ⊢
  rw [other] at h
  obtain ⟨i, found, rfl⟩ := settled
  cases shown : (front ++ cut).all allBlank with
  | true =>
    -- a blank text is trimmed to nothing, and so is every part of it
    have shown' : (front ++ left).all allBlank = true := by
      rw [List.all_append, Bool.and_eq_true, List.all_eq_true, List.all_eq_true] at shown ⊢
      exact ⟨shown.1, fun b mem => shown.2 b (part mem)⟩
    rw [trim_eq_nil_of_blank (allBlank_unlines.trans shown)]
    rw [trim_eq_nil_of_blank (allBlank_unlines.trans shown')] at h
    exact ⟨c', h, List.prefix_rfl⟩
  | false =>
    rcases none_or_first (fun l => !allBlank l) front with
      none | ⟨blanks, first, rest, rfl, none, here⟩
    · have := length_le_blankLines (fun b mem => by simpa using none b mem) shown
      omega
    have blank : ∀ b ∈ blanks, allBlank b = true := fun b mem => by simpa using none b mem
    have shown : allBlank first = false := by simpa using here
    have start : ∀ tail, trim (unlines (blanks ++ first :: rest ++ tail)) =
        trimEnd (unlines (trimStart first :: rest ++ tail)) := by
      intro tail
      rw [trim, List.append_assoc, List.cons_append, trimStart_unlines blank shown]
      rfl
    rw [start] at found h ⊢
    rw [List.append_assoc, List.cons_append, blankLines_append blank shown,
      List.length_append, List.length_cons] at early
    refine exists_commentOf_of_left ?_ (by rw [allBlank_trimStart, shown]) part found ?_ h
    · intro k mem
      rcases List.mem_append.1 mem with mem | mem
      · rcases List.mem_cons.1 mem with rfl | mem
        · exact fun feed => plain first (by simp) ((trimStart_suffix first).subset feed)
        · exact plain k (by simp [mem])
      · exact plain k (by simp [mem])
    · rw [List.length_cons]
      omega

end CommentTokens

/-! ### Excision behind the settling line -/

/-- The first span belongs to the first licensed piece. -/
theorem exists_of_spansFrom_eq_cons {license : List Char} {first : Nat} {ps : List Piece} {s : Span}
    {ss : List Span} (h : spansFrom license first ps = s :: ss) :
    ∃ before p after, ps = before ++ p :: after ∧ keptLines license ps =
      before.flatMap Piece.lines ++ keptLines license after ∧
      s.startLine = first + (before.flatMap Piece.lines).length := by
  induction ps generalizing first with
  | nil => simp [spansFrom] at h
  | cons p ps ih =>
    rw [spansFrom_cons] at h
    cases licensed : p.licensed license with
    | true =>
      rw [if_pos licensed] at h
      obtain ⟨rfl, -⟩ := List.cons.inj h
      exact ⟨[], p, ps, rfl, by simp [keptLines, licensed], rfl⟩
    | false =>
      rw [if_neg (by simp [licensed])] at h
      obtain ⟨before, q, after, rfl, kept, start⟩ := ih h
      refine ⟨p :: before, q, after, rfl, ?_, ?_⟩
      · rw [List.flatMap_cons, List.append_assoc, ← kept]
        simp [keptLines, licensed]
      · rw [start, List.flatMap_cons, List.length_append, Nat.add_assoc]

variable {m : Markers} {t : CommentTokens} {content : String} {j : Nat}

/-- A text that is cut below its settling line does not become proprietary. -/
theorem isProprietary_excise (settled : t.settlingLine? content = some j)
    (below : ∀ s ∈ (m.excise content).spans.head?, j < s.startLine)
    (h : isProprietary m t (m.excise content).content = true) :
    isProprietary m t content = true := by
  cases e : (m.excise content).spans with
  | nil => rwa [Markers.excise_of_spans_eq_nil e] at h
  | cons s ss =>
    rw [e] at below
    rw [m.spans_excise] at e
    obtain ⟨before, p, after, pieces, kept, start⟩ := exists_of_spansFrom_eq_cons e
    have whole : lines content.toList =
        before.flatMap Piece.lines ++ (p :: after).flatMap Piece.lines := by
      rw [← m.flatMap_lines_piecesOf, pieces, List.flatMap_append]
    have other : (m.excise content).content.toList =
        unlines (before.flatMap Piece.lines ++ keptLines m.license.toList after) := by
      rw [m.content_excise, String.toList_ofList, kept]
    have part : keptLines m.license.toList after ⊆ (p :: after).flatMap Piece.lines := by
      intro l mem
      obtain ⟨q, hq, mem⟩ := List.mem_flatMap.1 mem
      exact List.mem_flatMap.2 ⟨q, List.mem_cons_of_mem _ (List.mem_filter.1 hq).1, mem⟩
    have early : j ≤ (before.flatMap Piece.lines).length := by
      have := below s rfl
      omega
    rw [isProprietary_iff] at h ⊢
    obtain ⟨c', comment, named⟩ := h
    obtain ⟨c, comment, start⟩ :=
      CommentTokens.exists_leadingComment_of_left whole other part settled early comment
    exact ⟨c, comment, named.trans start.isInfix⟩

namespace Decision

/-- How many times a content is rewritten when it is decided on again and again. -/
def rewrites (m : Markers) (t : CommentTokens) : Nat → String → Nat
  | 0, _ => 0
  | passes + 1, content =>
    match ofContent m t content with
    | replace left _ _ => rewrites m t passes left + 1
    | keep | delete => 0

variable {left left' : String} {n n' : Nat} {ss ss' : List Span}

/-- What a rewrite leaves is not rewritten again. -/
theorem ofContent_ne_replace (some : m.opening ≠ "" ∨ m.license ≠ "")
    (h : ofContent m t content = .replace left n ss) :
    ofContent m t left ≠ .replace left' n' ss' := by
  intro again
  obtain ⟨-, cut, -, -⟩ := ofContent_eq_replace_iff.1 h
  obtain ⟨-, cut', -, changed⟩ := ofContent_eq_replace_iff.1 again
  have none := Markers.spans_excise_content some content
  rw [cut, cut'] at none
  exact changed none

/-- What a rewrite leaves is kept, unless it is proprietary as a whole. -/
theorem ofContent_eq_keep (some : m.opening ≠ "" ∨ m.license ≠ "")
    (h : ofContent m t content = .replace left n ss) (shared : isProprietary m t left = false) :
    ofContent m t left = .keep := by
  cases e : ofContent m t left with
  | keep => rfl
  | delete =>
    rw [ofContent_eq_delete_iff, shared] at e
    exact absurd e (by decide)
  | replace left' n' ss' => exact absurd e (ofContent_ne_replace some h)

/-- A decision that is no replacement is not followed by another one. -/
theorem rewrites_eq_zero (passes : Nat)
    (h : ∀ left n ss, ofContent m t content ≠ .replace left n ss) :
    rewrites m t passes content = 0 := by
  cases passes with
  | zero => rfl
  | succ passes =>
    rw [rewrites]
    split
    · rename_i left n ss e
      exact absurd e (h left n ss)
    · rfl
    · rfl

/-- **Deciding converges.** What a rewrite leaves is not rewritten again, so there is at most one
rewrite; and it is kept if the first snippet was cut out below the settling line. -/
theorem ofContent_converges (some : m.opening ≠ "" ∨ m.license ≠ "")
    (h : ofContent m t content = .replace left n ss) :
    (∀ left' n' ss', ofContent m t left ≠ .replace left' n' ss') ∧
      (∀ passes, rewrites m t passes content ≤ 1) ∧
      ∀ j, t.settlingLine? content = .some j → (∀ s ∈ ss.head?, j < s.startLine) →
        ofContent m t left = .keep := by
  have once : ∀ left' n' ss', ofContent m t left ≠ .replace left' n' ss' := fun _ _ _ =>
    ofContent_ne_replace some h
  refine ⟨once, fun passes => ?_, fun j settled below => ofContent_eq_keep some h ?_⟩
  · cases passes with
    | zero => exact Nat.zero_le 1
    | succ passes =>
      simp only [rewrites, h]
      rw [rewrites_eq_zero passes once]
  · obtain ⟨shared, cut, -, -⟩ := ofContent_eq_replace_iff.1 h
    by_contra named
    rw [Bool.not_eq_false] at named
    have spoiled := isProprietary_excise (m := m) (t := t) settled (by rwa [cut]) (by rwa [cut])
    rw [shared] at spoiled
    exact absurd spoiled (by decide)

/-- A comment, a line of code at which the look for it ends, and a snippet behind that line. -/
theorem ofContent_converges_behind_comment :
    ofContent ⟨"L", "B", "E"⟩ {} "\n// one\nuse a;\nB\nL\nE\n" =
        .replace "\n// one\nuse a;\n" 1 [⟨4, 6, true⟩] ∧
      CommentTokens.settlingLine? {} "\n// one\nuse a;\nB\nL\nE\n" = some 3 ∧
      (∀ s ∈ [(⟨4, 6, true⟩ : Span)].head?, 3 < s.startLine) ∧
      (∀ passes, rewrites ⟨"L", "B", "E"⟩ {} passes "\n// one\nuse a;\nB\nL\nE\n" ≤ 1) ∧
      ofContent ⟨"L", "B", "E"⟩ {} "\n// one\nuse a;\n" = .keep := by
  have some : (⟨"L", "B", "E"⟩ : Markers).opening ≠ "" ∨ (⟨"L", "B", "E"⟩ : Markers).license ≠ "" :=
    .inl (by decide)
  have rewritten : ofContent ⟨"L", "B", "E"⟩ {} "\n// one\nuse a;\nB\nL\nE\n" =
      .replace "\n// one\nuse a;\n" 1 [⟨4, 6, true⟩] := by decide +kernel
  have settled : CommentTokens.settlingLine? {} "\n// one\nuse a;\nB\nL\nE\n" = .some 3 := by
    decide +kernel
  have below : ∀ s ∈ [(⟨4, 6, true⟩ : Span)].head?, 3 < s.startLine := by decide
  have converges := ofContent_converges some rewritten
  exact ⟨rewritten, settled, below, converges.2.1, converges.2.2 3 settled below⟩

end Decision
end Expunge
