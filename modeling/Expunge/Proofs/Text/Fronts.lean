import Expunge.Proofs.Text.Trim

/-!
# Fronts of a text

`takeThrough` and `takeWhile` cut the shortest and the longest front of some lines with a property,
and a line is in the front exactly if the lines before it let it be. A token that holds no line feed
is in a text exactly if it is in one of its lines (`infix_unlines_iff`).
-/

namespace Expunge.Text
set_option autoImplicit false

variable {p : Line → Bool} {l : Line} {ls front : List Line} {token : List Char}

/-- Lines that end with one that has a property. -/
def EndsAt (P : Line → Prop) (front : List Line) : Prop := ∃ before l, front = before ++ [l] ∧ P l

/-- The shortest front of lines with a property. -/
structure IsShortestFront (q : List Line → Prop) (ls front : List Line) : Prop where
  part : front <+: ls
  has : q front
  least : ∀ other, other <+: ls → q other → front <+: other

/-- The longest front of lines with a property. -/
structure IsLongestFront (q : List Line → Prop) (ls front : List Line) : Prop where
  part : front <+: ls
  has : q front
  most : ∀ other, other <+: ls → q other → other <+: front

/-! ### Cuts -/

theorem isShortestFront_takeThrough (some : ∃ l ∈ ls, p l = true) :
    IsShortestFront (EndsAt (p · = true)) ls (takeThrough p ls) := by
  rcases none_or_first p ls with none | ⟨before, l, after, rfl, none, here⟩
  · obtain ⟨l, mem, has⟩ := some
    simp [none l mem] at has
  · rw [takeThrough_append_cons none here]
    have part : before ++ [l] <+: before ++ l :: after := ⟨after, by simp⟩
    refine ⟨part, ⟨before, l, rfl, here⟩, ?_⟩
    rintro _ part' ⟨before', l', rfl, here'⟩
    rcases List.prefix_or_prefix_of_prefix part part' with shorter | longer
    · exact shorter
    · -- a front that ended earlier would end at a line before the first one
      rcases List.prefix_concat_iff.1 longer with same | inside
      · exact same ▸ List.prefix_rfl
      · have early := none l' (inside.subset (by simp))
        simp [here'] at early

theorem isLongestFront_takeWhile (p : Line → Bool) (ls : List Line) :
    IsLongestFront (∀ l ∈ ·, p l = true) ls (ls.takeWhile p) where
  part := List.takeWhile_prefix p
  has := fun _ mem => List.mem_takeWhile_imp mem
  most := by
    rintro other ⟨rest, rfl⟩ all
    rw [List.takeWhile_append_of_pos all]
    exact List.prefix_append _ _

/-- A line is kept if none before it ends the front. -/
theorem mem_takeThrough_iff :
    l ∈ takeThrough p ls ↔ ∃ i, ls[i]? = some l ∧ ∀ k ∈ ls.take i, p k = false := by
  induction ls with
  | nil => simp [takeThrough]
  | cons first ls ih =>
    cases here : p first with
    | true =>
      rw [takeThrough, if_pos here, List.mem_singleton]
      constructor
      · rintro rfl
        exact ⟨0, rfl, by simp⟩
      · rintro ⟨i, found, none⟩
        cases i with
        | zero => exact (Option.some.inj found).symm
        | succ i =>
          have ended := none first (by simp)
          simp [here] at ended
    | false =>
      rw [takeThrough, if_neg (by simp [here]), List.mem_cons, ih]
      constructor
      · rintro (rfl | ⟨i, found, none⟩)
        · exact ⟨0, rfl, by simp⟩
        · exact ⟨i + 1, found, by simpa [here] using none⟩
      · rintro ⟨i, found, none⟩
        cases i with
        | zero => exact .inl (Option.some.inj found).symm
        | succ i => exact .inr ⟨i, found, by simpa [here] using none⟩

/-- A line is kept if it and all before it have the property. -/
theorem mem_takeWhile_iff :
    l ∈ ls.takeWhile p ↔ ∃ i, ls[i]? = some l ∧ ∀ k ∈ ls.take (i + 1), p k = true := by
  induction ls with
  | nil => simp
  | cons first ls ih =>
    cases here : p first with
    | true =>
      rw [List.takeWhile_cons_of_pos here, List.mem_cons, ih]
      constructor
      · rintro (rfl | ⟨i, found, all⟩)
        · exact ⟨0, rfl, by simp [here]⟩
        · exact ⟨i + 1, found, by simpa [here] using all⟩
      · rintro ⟨i, found, all⟩
        cases i with
        | zero => exact .inl (Option.some.inj found).symm
        | succ i => exact .inr ⟨i, found, by simpa [here] using all⟩
    | false =>
      rw [List.takeWhile_cons_of_neg (by simp [here])]
      constructor
      · simp
      · rintro ⟨i, -, all⟩
        have kept := all first (by simp)
        simp [here] at kept

/-! ### Joined lines -/

/-- A front of a text ends before a character that it does not hold. -/
theorem prefix_of_prefix_append_cons {c : Char} {as bs : List Char} (plain : c ∉ token)
    (h : token <+: as ++ c :: bs) : token <+: as := by
  rcases List.prefix_or_prefix_of_prefix h (List.prefix_append as (c :: bs)) with inside | ⟨rest, rfl⟩
  · exact inside
  · rcases List.prefix_cons_iff.1 ((List.prefix_append_right_inj as).1 h) with rfl | ⟨rest, rfl, -⟩
    · rw [List.append_nil]
    · simp at plain

/-- A token does not reach over a character that it does not hold. -/
theorem infix_append_cons_iff {c : Char} {as bs : List Char} (plain : c ∉ token) :
    token <:+: as ++ c :: bs ↔ token <:+: as ∨ token <:+: bs := by
  constructor
  · intro inside
    induction as with
    | nil =>
      rcases List.infix_cons_iff.1 inside with first | later
      · exact .inl (prefix_of_prefix_append_cons plain first).isInfix
      · exact .inr later
    | cons a as ih =>
      rcases List.infix_cons_iff.1 inside with first | later
      · exact .inl (prefix_of_prefix_append_cons plain first).isInfix
      · exact (ih later).imp_left fun inside => List.infix_cons_iff.2 (.inr inside)
  · rintro (inside | inside)
    · exact inside.trans (List.prefix_append _ _).isInfix
    · exact inside.trans ((List.suffix_cons _ _).trans (List.suffix_append _ _)).isInfix

/-- A token without a line feed is in a text exactly if it is in a line of it. -/
theorem infix_unlines_iff (plain : '\n' ∉ token) (some : ls ≠ []) :
    token <:+: unlines ls ↔ ∃ l ∈ ls, token <:+: l := by
  induction ls with
  | nil => exact absurd rfl some
  | cons l ls ih =>
    by_cases last : ls = []
    · subst last
      simp
    · rw [unlines_cons_of_ne_nil l last, infix_append_cons_iff plain, ih last]
      simp only [List.mem_cons, exists_eq_or_imp]

/-- A front of the lines of a text is all of it, or is followed by a line feed. -/
theorem unlines_front {cs : List Char} (some : front ≠ []) (part : front <+: lines cs) :
    unlines front = cs ∨ unlines front ++ ['\n'] <+: cs := by
  obtain ⟨rest, whole⟩ := part
  have text : cs = unlines (front ++ rest) := by rw [whole, unlines_lines]
  by_cases last : rest = []
  · exact .inl (by rw [text, last, List.append_nil])
  · refine .inr ⟨unlines rest, ?_⟩
    rw [text, unlines_append some last, List.append_assoc, List.singleton_append]

end Expunge.Text
