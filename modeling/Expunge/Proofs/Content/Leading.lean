import Expunge.Content.Comment
import Expunge.Proofs.Text.Fronts

/-!
# The leading comment

What the leading comment of a content is, said of its lines: the shortest front that ends where the
block comment is closed, or the longest front of line comments and blank lines (`detects_commentOf`).
So a file is proprietary exactly if one of its lines holds the licence marker and no line before it
ends the comment (`isProprietary_iff_line`).
-/

namespace Expunge
set_option autoImplicit false
open Text

variable {m : Markers} {t : CommentTokens} {ls : List Line} {l : Line} {content : String}
  {c : LeadingComment}

/-- The lines of a content, blanks around it left aside. -/
def bodyLines (content : String) : List Line := lines (trim content.toList)

namespace CommentTokens

/-- The first of the lines, blanks around it left aside, opens a block comment. -/
def OpensBlock (t : CommentTokens) (ls : List Line) : Prop :=
  t.blockOpen.toList <+: trim (ls.headD [])

/-- The first of the lines, blanks around it left aside, starts as a line comment. -/
def OpensLine (t : CommentTokens) (ls : List Line) : Prop := t.line.toList <+: trim (ls.headD [])

/-- The line closes a block comment. -/
def Closes (t : CommentTokens) (l : Line) : Prop := t.blockClose.toList <:+: l

/-- The line is blank, or a line comment. -/
def Continues (t : CommentTokens) (l : Line) : Prop := trim l = [] ∨ t.line.toList <+: trim l

instance (t : CommentTokens) (ls : List Line) : Decidable (t.OpensBlock ls) :=
  decidable_of_iff _ startsWith_iff

instance (t : CommentTokens) (ls : List Line) : Decidable (t.OpensLine ls) :=
  decidable_of_iff _ startsWith_iff

instance (t : CommentTokens) (l : Line) : Decidable (t.Closes l) :=
  decidable_of_iff _ occursIn_iff

theorem continuesRun_iff : t.continuesRun l = true ↔ t.Continues l := by
  rw [continuesRun, Bool.or_eq_true, List.isEmpty_iff, startsWith_iff, Continues]

instance (t : CommentTokens) (l : Line) : Decidable (t.Continues l) :=
  decidable_of_iff _ continuesRun_iff

/-- The comment at the start of the lines goes on to the line with a number: no line before it closes
the block comment, or it and all before it are blank or line comments. -/
def Reaches (t : CommentTokens) (ls : List Line) (i : Nat) : Prop :=
  t.OpensBlock ls ∧ (∀ k ∈ ls.take i, ¬ t.Closes k) ∨
    ¬ t.OpensBlock ls ∧ t.OpensLine ls ∧ ∀ k ∈ ls.take (i + 1), t.Continues k

instance (t : CommentTokens) (ls : List Line) (i : Nat) : Decidable (t.Reaches ls i) :=
  inferInstanceAs (Decidable (_ ∨ _))

/-- The comment that is found at the start of lines. -/
structure Detects (t : CommentTokens) (ls : List Line) (found : Option LeadingComment) : Prop where
  none : found = none ↔ ¬ t.OpensBlock ls ∧ ¬ t.OpensLine ls
  /-- A block comment goes to the first line that closes it, or to the end. -/
  block : t.OpensBlock ls → ∃ c, found = some c ∧ c.style = .block ∧
    ((∃ l ∈ ls, t.Closes l) ∧ IsShortestFront (EndsAt t.Closes) ls c.lines ∨
      (∀ l ∈ ls, ¬ t.Closes l) ∧ c.lines = ls)
  /-- Line comments go as far as there is no other text. -/
  line : ¬ t.OpensBlock ls → t.OpensLine ls → ∃ c, found = some c ∧ c.style = .line ∧
    IsLongestFront (∀ l ∈ ·, t.Continues l) ls c.lines

theorem occursIn_blockClose_iff : occursIn t.blockClose.toList l = true ↔ t.Closes l := occursIn_iff

theorem commentOf_of_block (opens : t.OpensBlock ls) :
    t.commentOf ls = some ⟨.block, takeThrough (occursIn t.blockClose.toList) ls⟩ :=
  if_pos (startsWith_iff.2 opens)

theorem commentOf_of_line (plain : ¬ t.OpensBlock ls) (opens : t.OpensLine ls) :
    t.commentOf ls = some ⟨.line, ls.takeWhile t.continuesRun⟩ := by
  rw [OpensBlock, ← startsWith_iff] at plain
  rw [OpensLine, ← startsWith_iff] at opens
  rw [commentOf, if_neg plain, if_pos opens]

/-- **What is detected**, for any tokens. -/
theorem detects_commentOf (t : CommentTokens) (ls : List Line) : t.Detects ls (t.commentOf ls) where
  none := commentOf_eq_none_iff
  block opens := by
    refine ⟨_, commentOf_of_block opens, rfl, ?_⟩
    by_cases closed : ∃ l ∈ ls, t.Closes l
    · have some : ∃ l ∈ ls, occursIn t.blockClose.toList l = true := by
        simpa only [occursIn_blockClose_iff] using closed
      have front := isShortestFront_takeThrough some
      simp only [occursIn_blockClose_iff] at front
      exact .inl ⟨closed, front⟩
    · have unclosed : ∀ l ∈ ls, ¬ t.Closes l := fun l mem closes => closed ⟨l, mem, closes⟩
      refine .inr ⟨unclosed, takeThrough_of_none fun l mem => ?_⟩
      rw [← Bool.not_eq_true, occursIn_blockClose_iff]
      exact unclosed l mem
  line plain opens := by
    refine ⟨_, commentOf_of_line plain opens, rfl, ?_⟩
    have front := isLongestFront_takeWhile t.continuesRun ls
    simp only [continuesRun_iff] at front
    exact front

/-- A comment is of one of the two kinds. -/
theorem commentOf_cases (found : t.commentOf ls = some c) :
    t.OpensBlock ls ∧ c = ⟨.block, takeThrough (occursIn t.blockClose.toList) ls⟩ ∨
      ¬ t.OpensBlock ls ∧ t.OpensLine ls ∧ c = ⟨.line, ls.takeWhile t.continuesRun⟩ := by
  by_cases block : t.OpensBlock ls
  · rw [commentOf_of_block block] at found
    exact .inl ⟨block, (Option.some.inj found).symm⟩
  · by_cases line : t.OpensLine ls
    · rw [commentOf_of_line block line] at found
      exact .inr ⟨block, line, (Option.some.inj found).symm⟩
    · rw [commentOf_eq_none_iff.2 ⟨block, line⟩] at found
      cases found

/-- A comment is a front of the lines that it is found in, and not empty. -/
theorem front_of_commentOf (nonempty : ls ≠ []) (found : t.commentOf ls = some c) :
    c.lines ≠ [] ∧ c.lines <+: ls := by
  obtain ⟨first, rest, rfl⟩ := List.exists_cons_of_ne_nil nonempty
  obtain ⟨-, rfl⟩ | ⟨-, line, rfl⟩ := commentOf_cases found
  · exact ⟨takeThrough_cons_ne_nil _ _ _, ⟨_, takeThrough_append_dropThrough _ _⟩⟩
  · have kept : t.continuesRun first = true := continuesRun_iff.2 (.inr line)
    refine ⟨?_, List.takeWhile_prefix _⟩
    rw [List.takeWhile_cons_of_pos kept]
    exact List.cons_ne_nil _ _

/-- The lines of a comment are those that it goes on to. -/
theorem mem_lines_iff (found : t.commentOf ls = some c) :
    l ∈ c.lines ↔ ∃ i, ls[i]? = some l ∧ t.Reaches ls i := by
  obtain ⟨block, rfl⟩ | ⟨block, line, rfl⟩ := commentOf_cases found
  · have reaches (i : Nat) : t.Reaches ls i ↔ ∀ k ∈ ls.take i, ¬ t.Closes k := by
      simp [Reaches, block]
    simp only [mem_takeThrough_iff, reaches, ← occursIn_blockClose_iff, Bool.not_eq_true]
  · have reaches (i : Nat) : t.Reaches ls i ↔ ∀ k ∈ ls.take (i + 1), t.Continues k := by
      simp [Reaches, block, line]
    simp only [mem_takeWhile_iff, reaches, continuesRun_iff]

/-- Without a comment there is no line that it goes on to. -/
theorem not_reaches_of_none (none : t.commentOf ls = none) (i : Nat) : ¬ t.Reaches ls i := by
  obtain ⟨block, line⟩ := commentOf_eq_none_iff.1 none
  rintro (⟨opens, -⟩ | ⟨-, opens, -⟩)
  · exact block opens
  · exact line opens

end CommentTokens

/-- The text of a leading comment is the content without the blanks around it, up to the end or to
the end of a line. -/
theorem text_of_leadingComment (found : t.leadingComment content = some c) :
    c.text <+: trim content.toList ∧
      (c.text = trim content.toList ∨ c.text ++ ['\n'] <+: trim content.toList) := by
  obtain ⟨nonempty, part⟩ := CommentTokens.front_of_commentOf (lines_ne_nil _) found
  rcases unlines_front nonempty part with whole | cut
  · exact ⟨whole ▸ List.prefix_rfl, .inl whole⟩
  · exact ⟨(List.prefix_append _ _).trans cut, .inr cut⟩

/-- **Whole files.** A file is proprietary exactly if one of its lines holds the licence marker and
its leading comment goes on to that line. -/
theorem isProprietary_iff_line (plain : '\n' ∉ m.license.toList) :
    isProprietary m t content = true ↔ ∃ i l, (bodyLines content)[i]? = some l ∧
      m.license.toList <:+: l ∧ t.Reaches (bodyLines content) i := by
  have whole : t.leadingComment content = t.commentOf (bodyLines content) := rfl
  rw [isProprietary_iff, whole]
  cases found : t.commentOf (bodyLines content) with
  | none => simp [CommentTokens.not_reaches_of_none found]
  | some c =>
    have nonempty := (CommentTokens.front_of_commentOf (lines_ne_nil _) found).1
    simp only [Option.some.injEq, exists_eq_left', LeadingComment.text]
    rw [infix_unlines_iff plain nonempty]
    constructor
    · rintro ⟨l, mem, holds⟩
      obtain ⟨i, here, reached⟩ := (CommentTokens.mem_lines_iff found).1 mem
      exact ⟨i, l, here, holds, reached⟩
    · rintro ⟨i, l, here, holds, reached⟩
      exact ⟨l, (CommentTokens.mem_lines_iff found).2 ⟨i, here, reached⟩, holds⟩

/-- **The leading comment and what it decides.** Which lines the comment is made of, how its text lies
in the content, and that a file is proprietary exactly if the comment goes on to a line with the
licence marker, for any tokens. -/
theorem leadingComment_exact (t : CommentTokens) (content : String) :
    t.Detects (bodyLines content) (t.leadingComment content) ∧
    (∀ c, t.leadingComment content = some c → c.text <+: trim content.toList ∧
      (c.text = trim content.toList ∨ c.text ++ ['\n'] <+: trim content.toList)) ∧
    ∀ m : Markers, '\n' ∉ m.license.toList →
      (isProprietary m t content = true ↔ ∃ i l, (bodyLines content)[i]? = some l ∧
        m.license.toList <:+: l ∧ t.Reaches (bodyLines content) i) :=
  ⟨t.detects_commentOf (bodyLines content), fun _ => text_of_leadingComment,
    fun _ => isProprietary_iff_line⟩

theorem leadingComment_exact_run :
    let content := "\n// Kept.\n\n  // SPDX-License-Identifier: LicenseRef-SEL\nfn main() \x7b\x7d\n"
    '\n' ∉ defaultLicense.toList ∧ isProprietary {} {} content = true := by
  intro content
  have plain : '\n' ∉ defaultLicense.toList := by decide
  have marked : (bodyLines content)[2]? = some ("  // " ++ defaultLicense).toList := by
    decide +kernel
  have holds : defaultLicense.toList <:+: ("  // " ++ defaultLicense).toList :=
    occursIn_iff.1 (by decide +kernel)
  have reached : CommentTokens.Reaches {} (bodyLines content) 2 := by decide +kernel
  exact ⟨plain, ((leadingComment_exact {} content).2.2 {} plain).2 ⟨2, _, marked, holds, reached⟩⟩

end Expunge
