import Expunge.Proofs.Text.Lines
import Expunge.Text.Blank
import Mathlib.Data.List.Infix
import Mathlib.Data.List.TakeWhile

/-!
# Trimming joined lines

Trimming a text drops the blank lines at its ends, and cuts into the first and the last line that
is not blank. So lines in front stay the first lines of the trimmed text whatever comes behind them
(`trimEnd_unlines_append`), unless nothing but blanks does.
-/

namespace Expunge.Text
set_option autoImplicit false

variable {as bs : List Char} {l : Line} {ls front tail : List Line}

/-! ### Trimming an append -/

theorem trimStart_append_of_blank (blank : allBlank as = true) :
    trimStart (as ++ bs) = trimStart bs := by
  rw [trimStart, List.dropWhile_append, ← trimStart, trimStart_eq_nil_iff.2 blank]
  rfl

theorem trimStart_append (shown : allBlank as = false) :
    trimStart (as ++ bs) = trimStart as ++ bs := by
  have some : trimStart as ≠ [] := fun h => by simp [trimStart_eq_nil_iff.1 h] at shown
  rw [trimStart, List.dropWhile_append, ← trimStart, if_neg (by simpa using some)]

theorem allBlank_append (as bs : List Char) :
    allBlank (as ++ bs) = (allBlank as && allBlank bs) := List.all_append

theorem allBlank_reverse (cs : List Char) : allBlank cs.reverse = allBlank cs :=
  List.all_reverse

/-- Trimming the end is trimming the start from behind. -/
theorem trimEnd_eq (cs : List Char) : trimEnd cs = (trimStart cs.reverse).reverse := rfl

theorem trimEnd_append_of_blank (blank : allBlank bs = true) :
    trimEnd (as ++ bs) = trimEnd as := by
  rw [← allBlank_reverse] at blank
  rw [trimEnd_eq, List.reverse_append, trimStart_append_of_blank blank, trimEnd_eq]

theorem trimEnd_append (shown : allBlank bs = false) : trimEnd (as ++ bs) = as ++ trimEnd bs := by
  rw [← allBlank_reverse] at shown
  rw [trimEnd_eq, List.reverse_append, trimStart_append shown, List.reverse_append,
    List.reverse_reverse, trimEnd_eq]

theorem trim_eq_nil_of_blank (blank : allBlank as = true) : trim as = [] := by
  rw [trim, trimStart_eq_nil_iff.2 blank]
  rfl

/-- Trimming the start of a text leaves a text that is not blank, if it was not. -/
theorem allBlank_trimStart (cs : List Char) : allBlank (trimStart cs) = allBlank cs := by
  induction cs with
  | nil => rfl
  | cons c cs ih =>
    cases blank : isBlank c with
    | true => simpa [trimStart, allBlank, blank] using ih
    | false => simp [trimStart, allBlank, blank]

/-- What is cut off at the end is blank. -/
theorem exists_blank_trimEnd (cs : List Char) : ∃ blanks, cs = trimEnd cs ++ blanks ∧
    allBlank blanks = true := by
  have whole := List.takeWhile_append_dropWhile (p := isBlank) (l := cs.reverse)
  refine ⟨(cs.reverse.takeWhile isBlank).reverse, ?_, ?_⟩
  · rw [trimEnd, ← List.reverse_append, whole, List.reverse_reverse]
  · rw [allBlank_reverse]
    exact List.all_eq_true.2 fun c h => List.mem_takeWhile_imp h

/-- Trimming the end first changes nothing. -/
theorem trim_trimEnd (cs : List Char) : trim (trimEnd cs) = trim cs := by
  obtain ⟨blanks, whole, blank⟩ := exists_blank_trimEnd cs
  generalize trimEnd cs = front at whole
  subst whole
  cases shown : allBlank front with
  | true =>
    have all : allBlank (front ++ blanks) = true := by
      rw [allBlank_append, shown, blank]
      rfl
    rw [trim_eq_nil_of_blank shown, trim_eq_nil_of_blank all]
  | false => rw [trim, trim, trimStart_append shown, trimEnd_append_of_blank blank]

/-- Blanks at both ends are cut off. -/
theorem trim_append_of_blank (blank : allBlank as = true) (blank' : allBlank bs = true)
    (cs : List Char) : trim (as ++ cs ++ bs) = trim cs := by
  rw [List.append_assoc, trim, trimStart_append_of_blank blank]
  cases shown : allBlank cs with
  | true =>
    have all : allBlank (cs ++ bs) = true := by
      rw [allBlank_append, shown, blank']
      rfl
    rw [trimStart_eq_nil_iff.2 all, trim_eq_nil_of_blank shown]
    rfl
  | false => rw [trimStart_append shown, trimEnd_append_of_blank blank', trim]

/-- A first character that is not blank stays the first one. -/
theorem exists_trim_cons {c : Char} (shown : isBlank c = false) (cs : List Char) :
    ∃ rest, trim (c :: cs) = c :: rest := by
  have start : trimStart (c :: cs) = [c] ++ cs := by simp [trimStart, shown]
  rw [trim, start]
  cases blank : allBlank cs with
  | true => exact ⟨[], by rw [trimEnd_append_of_blank blank]; simp [trimEnd, shown]⟩
  | false => exact ⟨trimEnd cs, trimEnd_append blank⟩

/-! ### Lines at the ends -/

theorem allBlank_cons_newline (cs : List Char) : allBlank ('\n' :: cs) = allBlank cs := by
  rw [allBlank, List.all_cons, isBlank_newline, Bool.true_and, allBlank]

/-- A joined text is blank exactly if its lines are. -/
theorem allBlank_unlines : allBlank (unlines ls) = ls.all allBlank := by
  induction ls with
  | nil => rfl
  | cons l ls ih =>
    by_cases last : ls = []
    · subst last
      simp
    · rw [unlines_cons_of_ne_nil l last, allBlank_append, allBlank_cons_newline, ih, List.all_cons]

theorem unlines_append (some : front ≠ []) (some' : tail ≠ []) :
    unlines (front ++ tail) = unlines front ++ '\n' :: unlines tail := by
  induction front with
  | nil => exact absurd rfl some
  | cons l ls ih =>
    rw [List.cons_append, unlines_cons_of_ne_nil l (by simp [some'])]
    by_cases last : ls = []
    · subst last
      simp
    · rw [ih last, unlines_cons_of_ne_nil l last, List.append_assoc, List.cons_append]

theorem toList_append_newline (front rest : String) :
    (front ++ "\n" ++ rest).toList = front.toList ++ '\n' :: rest.toList := by
  simp

/-- A line feed between two texts ends the last line of the first one. -/
theorem lines_append_newline (as bs : List Char) : lines (as ++ '\n' :: bs) = lines as ++ lines bs := by
  have whole : as ++ '\n' :: bs = unlines (lines as ++ lines bs) := by
    rw [unlines_append (lines_ne_nil as) (lines_ne_nil bs), unlines_lines, unlines_lines]
  rw [whole]
  refine lines_unlines (fun l mem => ?_) (by simp [lines_ne_nil])
  rcases List.mem_append.1 mem with mem | mem
  · exact newline_notMem_of_mem_lines mem
  · exact newline_notMem_of_mem_lines mem

/-- Two texts with a line feed between them are trimmed at their outer ends. -/
theorem trim_append_newline (shown : allBlank as = false) (shown' : allBlank bs = false) :
    trim (as ++ '\n' :: bs) = trimStart as ++ '\n' :: trimEnd bs := by
  have shown'' : allBlank ('\n' :: bs) = false := by rw [allBlank_cons_newline, shown']
  rw [trim, trimStart_append shown, trimEnd_append shown'', ← List.singleton_append,
    trimEnd_append shown', List.singleton_append]

/-- Lines in front of others are a prefix of the text. -/
theorem unlines_prefix_append (front tail : List Line) :
    unlines front <+: unlines (front ++ tail) := by
  by_cases some : front = []
  · subst some
    exact List.nil_prefix
  · by_cases some' : tail = []
    · rw [some', List.append_nil]
    · rw [unlines_append some some']
      exact List.prefix_append _ _

/-- A shorter last line gives a prefix of the text. -/
theorem unlines_concat_prefix {l' : Line} (part : l' <+: l) (front tail : List Line) :
    unlines (front ++ [l']) <+: unlines (front ++ l :: tail) := by
  have first : l' <+: unlines (l :: tail) := by
    have head := unlines_prefix_append [l] tail
    rw [unlines_singleton] at head
    exact part.trans head
  by_cases some : front = []
  · subst some
    simpa using first
  · rw [unlines_append some (by simp), unlines_append some (by simp), unlines_singleton]
    exact (List.prefix_append_right_inj _).2 (List.cons_prefix_cons.2 ⟨rfl, first⟩)

/-- Blank lines in front are dropped, and the first line that is not blank is trimmed. -/
theorem trimStart_unlines {blanks : List Line} (blank : ∀ b ∈ blanks, allBlank b = true)
    (shown : allBlank l = false) (ls : List Line) :
    trimStart (unlines (blanks ++ l :: ls)) = unlines (trimStart l :: ls) := by
  induction blanks with
  | nil =>
    rw [List.nil_append]
    by_cases last : ls = []
    · subst last
      simp
    · rw [unlines_cons_of_ne_nil l last, trimStart_append shown, unlines_cons_of_ne_nil _ last]
  | cons b blanks ih =>
    have drop : allBlank (b ++ ['\n']) = true := by
      rw [allBlank_append, blank b (by simp), allBlank_cons_newline]
      rfl
    rw [List.cons_append, unlines_cons_of_ne_nil b (by simp), ← List.singleton_append,
      ← List.append_assoc, trimStart_append_of_blank drop, ih fun b h => blank b (by simp [h])]

/-- Blank lines at the end are dropped. -/
theorem trimEnd_unlines_append_of_blank (some : front ≠ []) (blank : ∀ b ∈ tail, allBlank b = true) :
    trimEnd (unlines (front ++ tail)) = trimEnd (unlines front) := by
  by_cases some' : tail = []
  · rw [some', List.append_nil]
  · have drop : allBlank ('\n' :: unlines tail) = true := by
      rw [allBlank_cons_newline, allBlank_unlines]
      exact List.all_eq_true.2 blank
    rw [unlines_append some some', trimEnd_append_of_blank drop]

/-- The last line that is not blank is trimmed. -/
theorem trimEnd_unlines (shown : allBlank l = false) (blank : ∀ b ∈ tail, allBlank b = true)
    (front : List Line) :
    trimEnd (unlines (front ++ l :: tail)) = unlines (front ++ [trimEnd l]) := by
  rw [← List.singleton_append, ← List.append_assoc,
    trimEnd_unlines_append_of_blank (by simp) blank]
  by_cases some : front = []
  · subst some
    simp
  · have shown' : allBlank ('\n' :: l) = false := by rw [allBlank_cons_newline, shown]
    rw [unlines_append some (by simp), unlines_append some (by simp), unlines_singleton,
      unlines_singleton, trimEnd_append shown', ← List.singleton_append, trimEnd_append shown,
      List.singleton_append]

/-- Lines are all blank, or there is a last one that is not. -/
theorem blank_or_last (ls : List Line) : (∀ b ∈ ls, allBlank b = true) ∨
    ∃ front l tail, ls = front ++ l :: tail ∧ allBlank l = false ∧
      ∀ b ∈ tail, allBlank b = true := by
  rcases none_or_first (!allBlank ·) ls.reverse with none | ⟨tail, l, front, whole, blank, shown⟩
  · exact .inl fun b h => by simpa using none b (List.mem_reverse.2 h)
  · have whole := congrArg List.reverse whole
    rw [List.reverse_reverse, List.reverse_append, List.reverse_cons, List.append_assoc,
      List.singleton_append] at whole
    exact .inr ⟨front.reverse, l, tail.reverse, whole, by simpa using shown,
      fun b h => by simpa using blank b (List.mem_reverse.1 h)⟩

/-- The lines of a text that is trimmed at its end. -/
theorem lines_trimEnd (plain : ∀ k ∈ front ++ l :: tail, '\n' ∉ k) (shown : allBlank l = false)
    (blank : ∀ b ∈ tail, allBlank b = true) :
    lines (trimEnd (unlines (front ++ l :: tail))) = front ++ [trimEnd l] := by
  have part := trimEnd_prefix l
  rw [trimEnd_unlines shown blank]
  refine lines_unlines (fun k mem => ?_) (by simp)
  rcases List.mem_append.1 mem with mem | mem
  · exact plain k (by simp [mem])
  · rw [List.mem_singleton.1 mem]
    exact fun feed => plain l (by simp) (part.subset feed)

/-- Lines in front stay as they are when the end is trimmed, if a line behind them is not blank. -/
theorem lines_trimEnd_append (plain : ∀ k ∈ front ++ tail, '\n' ∉ k) (some : front ≠ []) :
    (∀ b ∈ tail, allBlank b = true) ∧
        trimEnd (unlines (front ++ tail)) = trimEnd (unlines front) ∨
      ∃ rest, lines (trimEnd (unlines (front ++ tail))) = front ++ rest := by
  rcases blank_or_last tail with blank | ⟨before, l, after, rfl, shown, blank⟩
  · exact .inl ⟨blank, trimEnd_unlines_append_of_blank some blank⟩
  · rw [← List.append_assoc] at plain ⊢
    exact .inr ⟨before ++ [trimEnd l], by rw [lines_trimEnd plain shown blank, List.append_assoc]⟩

end Expunge.Text
