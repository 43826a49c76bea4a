import Expunge.Proofs.Content.Leading
import Expunge.Proofs.Content.Settling

/-!
# What stands around the leading comment

The look for a leading comment passes over the blanks around a text and ends at a settling line, so
neither those blanks nor the lines behind that line have a say (`leadingComment_surroundings`). A
byte order mark is no blank: no comment is found behind one, and no file that starts with one is
deleted (`isProprietary_behind_byteOrderMark`).
-/

namespace Expunge
set_option autoImplicit false
open Text

variable {m : Markers} {t : CommentTokens} {ls : List Line} {front rest : List Char}

namespace CommentTokens

/-! ### Behind the settling line -/

/-- The look for a leading comment ends among the lines: they start with none, or they hold a line
that closes the block, or one that is no part of the run. -/
def Settled (t : CommentTokens) (ls : List Line) : Prop :=
  ¬ t.OpensBlock ls ∧ ¬ t.OpensLine ls ∨ t.OpensBlock ls ∧ (∃ l ∈ ls, t.Closes l) ∨
    ¬ t.OpensBlock ls ∧ t.OpensLine ls ∧ ∃ l ∈ ls, ¬ t.Continues l

instance (t : CommentTokens) (ls : List Line) : Decidable (t.Settled ls) :=
  inferInstanceAs (Decidable (_ ∨ _))

theorem isSome_settling?_iff : (t.settling? ls).isSome = true ↔ t.Settled ls := by
  have stops : ∀ l, (!t.continuesRun l) = true ↔ ¬ t.Continues l := fun l => by
    rw [Bool.not_eq_true', ← Bool.not_eq_true, continuesRun_iff]
  by_cases block : t.OpensBlock ls
  · rw [settling?, if_pos (startsWith_iff.2 block), List.findIdx?_isSome, List.any_eq_true]
    simp [Settled, block, occursIn_blockClose_iff]
  · rw [settling?, if_neg (mt startsWith_iff.1 block)]
    by_cases line : t.OpensLine ls
    · rw [if_pos (startsWith_iff.2 line), List.findIdx?_isSome, List.any_eq_true]
      simp only [stops]
      simp [Settled, block, line]
    · rw [if_neg (mt startsWith_iff.1 line)]
      simp [Settled, block, line]

/-- The leading comment of a text that goes on behind its settling line is the one of the lines up to
there. -/
theorem commentOf_of_settled (shown : allBlank front = false)
    (settled : t.Settled (lines (trimStart front))) (shown' : allBlank rest = false) :
    t.commentOf (lines (trim (front ++ '\n' :: rest))) = t.commentOf (lines (trimStart front)) := by
  rw [trim_append_newline shown shown', lines_append_newline,
    commentOf_append (isSome_settling?_iff.2 settled) (lines_ne_nil _)]

/-- **What has no say in the leading comment**: blanks around a text, and what stands behind a part of
it that settles the comment. What is detected is told by the lines of that part, so no text behind it
makes a file proprietary or spares it. -/
theorem leadingComment_surroundings (t : CommentTokens) :
    (∀ before content after : String, allBlank before.toList = true → allBlank after.toList = true →
      t.leadingComment (before ++ content ++ after) = t.leadingComment content) ∧
    ∀ front one other : String, allBlank front.toList = false →
      t.Settled (lines (trimStart front.toList)) →
      allBlank one.toList = false → allBlank other.toList = false →
      t.Detects (lines (trimStart front.toList)) (t.leadingComment (front ++ "\n" ++ one)) ∧
        t.leadingComment (front ++ "\n" ++ one) = t.leadingComment (front ++ "\n" ++ other) ∧
        ∀ m : Markers, isProprietary m t (front ++ "\n" ++ one) =
          isProprietary m t (front ++ "\n" ++ other) := by
  constructor
  · intro before content after blank blank'
    rw [leadingComment, String.toList_append, String.toList_append,
      trim_append_of_blank blank blank', leadingComment]
  · intro front one other shown settled shown' shown''
    have alone : ∀ rest : String, allBlank rest.toList = false →
        t.leadingComment (front ++ "\n" ++ rest) = t.commentOf (lines (trimStart front.toList)) := by
      intro rest shown'
      rw [leadingComment, toList_append_newline, commentOf_of_settled shown settled shown']
    have same : t.leadingComment (front ++ "\n" ++ one) =
        t.leadingComment (front ++ "\n" ++ other) := (alone one shown').trans (alone other shown'').symm
    refine ⟨?_, same, fun m => by rw [isProprietary, isProprietary, same]⟩
    rw [alone one shown']
    exact t.detects_commentOf _

/-- A block comment that is closed on its second line, with the licence marker behind it or not. -/
theorem leadingComment_surroundings_closed_block :
    let front := "/* Kept,\n as it is. */ use a;"
    let one := "// SPDX-License-Identifier: LicenseRef-SEL\n"
    let other := "use b;"
    allBlank "\n\t".toList = true ∧ allBlank "\r\n".toList = true ∧
      leadingComment {} ("\n\t" ++ front ++ "\r\n") = leadingComment {} front ∧
      allBlank front.toList = false ∧ Settled {} (lines (trimStart front.toList)) ∧
      allBlank one.toList = false ∧ allBlank other.toList = false ∧
      leadingComment {} (front ++ "\n" ++ one) = leadingComment {} (front ++ "\n" ++ other) ∧
      isProprietary {} {} (front ++ "\n" ++ one) = isProprietary {} {} (front ++ "\n" ++ other) := by
  intro front one other
  have shown : allBlank front.toList = false := by decide +kernel
  have settled : Settled {} (lines (trimStart front.toList)) := by decide +kernel
  have shown' : allBlank one.toList = false := by decide +kernel
  have shown'' : allBlank other.toList = false := by decide +kernel
  have around := (leadingComment_surroundings {}).1 "\n\t" front "\r\n" (by decide) (by decide)
  obtain ⟨-, same, answers⟩ :=
    (leadingComment_surroundings {}).2 front one other shown settled shown' shown''
  exact ⟨by decide, by decide, around, shown, settled, shown', shown'', same, answers {}⟩

end CommentTokens

/-! ### Behind a byte order mark -/

/-- The byte order mark, which has not the property White_Space. -/
def byteOrderMark : Char := '\uFEFF'

/-- The content with a byte order mark in front. -/
def withByteOrderMark (content : String) : String := String.singleton byteOrderMark ++ content

/-- The token is not empty and starts with another character. -/
def IsOther (c : Char) (token : String) : Prop := token ≠ "" ∧ token.toList.head? ≠ some c

instance (c : Char) (token : String) : Decidable (IsOther c token) :=
  inferInstanceAs (Decidable (_ ∧ _))

/-- Trimming leaves a shown character in front of a text at the start of its first line. -/
theorem exists_trim_headD_lines {c : Char} (shown : isBlank c = false) (cs : List Char) :
    ∃ rest, trim ((lines (trim (c :: cs))).headD []) = c :: rest := by
  have feed : c ≠ '\n' := by
    rintro rfl
    rw [isBlank_newline] at shown
    exact absurd shown (by decide)
  obtain ⟨body, whole⟩ := exists_trim_cons shown cs
  obtain ⟨first, others, split⟩ := List.exists_cons_of_ne_nil (lines_ne_nil body)
  rw [whole, lines_cons, if_neg feed, split]
  exact exists_trim_cons shown first

/-- A token does not start a text that starts with another character. -/
theorem IsOther.not_prefix {c : Char} {token : String} (h : IsOther c token) (cs : List Char) :
    ¬ token.toList <+: c :: cs := by
  intro part
  rcases List.prefix_cons_iff.1 part with empty | ⟨rest, start, -⟩
  · exact h.1 (String.toList_eq_nil_iff.1 empty)
  · exact h.2 (by rw [start, List.head?_cons])

/-- A shown character in front of a text hides its leading comment, if no comment starts with it. -/
theorem leadingComment_of_shown {c : Char} (shown : isBlank c = false)
    (block : IsOther c t.blockOpen) (line : IsOther c t.line) (content : String) :
    t.leadingComment (String.singleton c ++ content) = none := by
  obtain ⟨rest, first⟩ := exists_trim_headD_lines shown content.toList
  rw [CommentTokens.leadingComment, String.toList_append, String.toList_singleton,
    List.singleton_append, CommentTokens.commentOf_eq_none_iff, first]
  exact ⟨block.not_prefix rest, line.not_prefix rest⟩

/-- **A byte order mark shields a file from deletion.** Behind one no leading comment is found, so the
answer on the whole file is no. It is the answer without the mark exactly if the leading comment there
does not hold the licence marker. -/
theorem isProprietary_behind_byteOrderMark (m : Markers) {t : CommentTokens}
    (block : IsOther byteOrderMark t.blockOpen) (line : IsOther byteOrderMark t.line)
    (content : String) :
    isProprietary m t (withByteOrderMark content) = false ∧
      (isProprietary m t (withByteOrderMark content) = isProprietary m t content ↔
        ∀ c, t.leadingComment content = some c → ¬ m.license.toList <:+: c.text) ∧
      Decision.ofContent m t (withByteOrderMark content) ≠ .delete := by
  have none : t.leadingComment (withByteOrderMark content) = none :=
    leadingComment_of_shown (by decide) block line content
  have shared : isProprietary m t (withByteOrderMark content) = false := by
    rw [isProprietary, none]
    rfl
  refine ⟨shared, ?_, fun removed => ?_⟩
  · rw [shared, eq_comm, ← Bool.not_eq_true, isProprietary_iff]
    simp only [not_exists, not_and]
  · rw [Decision.ofContent_eq_delete_iff, shared] at removed
    exact absurd removed (by decide)

/-- The licence marker in the first line, behind a byte order mark. -/
theorem isProprietary_behind_byteOrderMark_licensed :
    let content := "// SPDX-License-Identifier: LicenseRef-SEL\nuse a;\n"
    IsOther byteOrderMark ({} : CommentTokens).blockOpen ∧
      IsOther byteOrderMark ({} : CommentTokens).line ∧
      isProprietary {} {} (withByteOrderMark content) = false ∧
      (isProprietary {} {} (withByteOrderMark content) = isProprietary {} {} content ↔
        ∀ c, CommentTokens.leadingComment {} content = some c →
          ¬ defaultLicense.toList <:+: c.text) ∧
      Decision.ofContent {} {} (withByteOrderMark content) ≠ .delete :=
  ⟨by decide, by decide, isProprietary_behind_byteOrderMark {} (by decide) (by decide) _⟩

/-- A byte order mark in front of a file that is proprietary as a whole changes the answer. -/
theorem isProprietary_withByteOrderMark_ne :
    let content := "// SPDX-License-Identifier: LicenseRef-SEL\nuse a;\n"
    (∀ token ∈ ({} : Settings).tokens, IsOther byteOrderMark token.2) ∧
      isProprietary {} {} content = true ∧ isProprietary {} {} (withByteOrderMark content) ≠
        isProprietary {} {} content := by
  decide +kernel

end Expunge
