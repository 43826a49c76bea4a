import Expunge.Proofs.Text.Fronts
import Mathlib.Data.List.Forall2

/-!
# Carriage returns

A text with a carriage return in front of each line feed has the lines of the text without them, but
for the carriage return at the end of each line that is not the last (`lines_addReturns`). The carriage
return is blank, so both texts are trimmed at the same places (`trim_addReturns`), and a token without
one is in the same lines of both.
-/

namespace Expunge.Text
set_option autoImplicit false

variable {p : Line → Bool} {l l' : Line} {ls ls' front : List Line} {token : List Char}

/-- A character, with a carriage return in front if it is the line feed. -/
def returned (c : Char) : List Char := if c = '\n' then ['\r', '\n'] else [c]

/-- The text with a carriage return in front of each line feed. -/
def addReturns (cs : List Char) : List Char := cs.flatMap returned

/-- The lines with a carriage return at the end of each but the last. -/
def returnedLines : List Line → List Line
  | [] => []
  | [l] => [l]
  | l :: l' :: ls => (l ++ ['\r']) :: returnedLines (l' :: ls)

theorem addReturns_append (as bs : List Char) :
    addReturns (as ++ bs) = addReturns as ++ addReturns bs := List.flatMap_append

theorem addReturns_cons_newline (cs : List Char) :
    addReturns ('\n' :: cs) = '\r' :: '\n' :: addReturns cs := rfl

theorem addReturns_of_plain {cs : List Char} (plain : '\n' ∉ cs) : addReturns cs = cs := by
  induction cs with
  | nil => rfl
  | cons c cs ih =>
    simp only [List.mem_cons, not_or] at plain
    rw [addReturns, List.flatMap_cons, ← addReturns, ih plain.2, returned,
      if_neg (Ne.symm plain.1), List.singleton_append]

theorem returnedLines_cons (l : Line) (some : ls ≠ []) :
    returnedLines (l :: ls) = (l ++ ['\r']) :: returnedLines ls := by
  obtain ⟨l', rest, rfl⟩ := List.exists_cons_of_ne_nil some
  rfl

theorem returnedLines_ne_nil (some : ls ≠ []) : returnedLines ls ≠ [] := by
  obtain ⟨l, rest, rfl⟩ := List.exists_cons_of_ne_nil some
  cases rest <;> simp [returnedLines]

/-- All lines but the last end in a carriage return. -/
theorem returnedLines_concat (front : List Line) (l : Line) :
    returnedLines (front ++ [l]) = front.map (· ++ ['\r']) ++ [l] := by
  induction front with
  | nil => rfl
  | cons k front ih => rw [List.cons_append, returnedLines_cons k (by simp), ih, List.map_cons,
      List.cons_append]

theorem newline_notMem_of_mem_returnedLines (plain : ∀ l ∈ ls, '\n' ∉ l)
    (mem : l ∈ returnedLines ls) : '\n' ∉ l := by
  rcases List.eq_nil_or_concat ls with rfl | ⟨front, last, rfl⟩
  · simp [returnedLines] at mem
  · rw [List.concat_eq_append] at plain mem
    rw [returnedLines_concat, List.mem_append, List.mem_map, List.mem_singleton] at mem
    rcases mem with ⟨k, mem, rfl⟩ | rfl
    · simpa using plain k (by simp [mem])
    · exact plain l (by simp)

/-! ### Lines that are the same -/

/-- The same line, up to a carriage return at its end. -/
def SameLine (l l' : Line) : Prop := l' = l ∨ l' = l ++ ['\r']

theorem forall₂_returnedLines (ls : List Line) : List.Forall₂ SameLine ls (returnedLines ls) := by
  induction ls with
  | nil => exact .nil
  | cons l ls ih =>
    by_cases last : ls = []
    · subst last
      exact .cons (.inl rfl) .nil
    · rw [returnedLines_cons l last]
      exact .cons (.inr rfl) ih

theorem SameLine.trim_eq (h : SameLine l l') : trim l' = trim l := by
  rcases h with rfl | rfl
  · rfl
  · have blank : allBlank ['\r'] = true := by decide
    rw [← List.nil_append (l ++ ['\r']), ← List.append_assoc, trim_append_of_blank rfl blank]

theorem SameLine.infix_iff (plain : '\r' ∉ token) (h : SameLine l l') :
    token <:+: l' ↔ token <:+: l := by
  rcases h with rfl | rfl
  · rfl
  · rw [infix_append_cons_iff plain, List.infix_nil, or_iff_left_iff_imp]
    rintro rfl
    exact List.nil_infix

/-- A token is in the same lines. -/
theorem exists_infix_iff (plain : '\r' ∉ token) (same : List.Forall₂ SameLine ls ls') :
    (∃ l ∈ ls', token <:+: l) ↔ ∃ l ∈ ls, token <:+: l := by
  induction same with
  | nil => rfl
  | cons here _ ih => simp only [List.mem_cons, exists_eq_or_imp, ih, here.infix_iff plain]

/-- A token without line ends is in both texts or in none. -/
theorem infix_unlines_iff_of_same (plain : '\r' ∉ token) (plain' : '\n' ∉ token)
    (same : List.Forall₂ SameLine ls ls') : token <:+: unlines ls' ↔ token <:+: unlines ls := by
  cases same with
  | nil => rfl
  | cons here rest =>
    rw [infix_unlines_iff plain' (by simp), infix_unlines_iff plain' (by simp)]
    exact exists_infix_iff plain (.cons here rest)

/-! ### Cuts of lines that are alike -/

section Alike

variable {R : Line → Line → Prop}

theorem forall₂_takeThrough (kind : ∀ l l', R l l' → p l' = p l) (same : List.Forall₂ R ls ls') :
    List.Forall₂ R (takeThrough p ls) (takeThrough p ls') := by
  induction same with
  | nil => exact .nil
  | cons here _ ih =>
    rw [takeThrough, takeThrough, kind _ _ here]
    split
    · exact .cons here .nil
    · exact .cons here ih

theorem forall₂_dropThrough (kind : ∀ l l', R l l' → p l' = p l) (same : List.Forall₂ R ls ls') :
    List.Forall₂ R (dropThrough p ls) (dropThrough p ls') := by
  induction same with
  | nil => exact .nil
  | cons here rest ih =>
    rw [dropThrough, dropThrough, kind _ _ here]
    split
    · exact rest
    · exact ih

theorem forall₂_takeWhile (kind : ∀ l l', R l l' → p l' = p l) (same : List.Forall₂ R ls ls') :
    List.Forall₂ R (ls.takeWhile p) (ls'.takeWhile p) := by
  induction same with
  | nil => exact .nil
  | cons here _ ih =>
    rw [List.takeWhile_cons, List.takeWhile_cons, kind _ _ here]
    split
    · exact .cons here ih
    · exact .nil

theorem any_eq_of_forall₂ (kind : ∀ l l', R l l' → p l' = p l) (same : List.Forall₂ R ls ls') :
    ls'.any p = ls.any p := by
  induction same with
  | nil => rfl
  | cons here _ ih => rw [List.any_cons, List.any_cons, kind _ _ here, ih]

end Alike

/-! ### The text with carriage returns -/

theorem addReturns_unlines (plain : ∀ l ∈ ls, '\n' ∉ l) :
    addReturns (unlines ls) = unlines (returnedLines ls) := by
  induction ls with
  | nil => rfl
  | cons l ls ih =>
    have same := addReturns_of_plain (plain l (by simp))
    by_cases last : ls = []
    · subst last
      rw [unlines_singleton, same, returnedLines, unlines_singleton]
    · rw [unlines_cons_of_ne_nil l last, addReturns_append, addReturns_cons_newline, same,
        ih fun k mem => plain k (by simp [mem]), returnedLines_cons l last,
        unlines_cons_of_ne_nil _ (returnedLines_ne_nil last), List.append_assoc,
        List.singleton_append]

/-- **The lines of a text with carriage returns.** -/
theorem lines_addReturns (cs : List Char) : lines (addReturns cs) = returnedLines (lines cs) := by
  have plain : ∀ l ∈ lines cs, '\n' ∉ l := fun l mem => newline_notMem_of_mem_lines mem
  have whole : addReturns cs = unlines (returnedLines (lines cs)) := by
    rw [← addReturns_unlines plain, unlines_lines]
  rw [whole]
  exact lines_unlines (fun _ => newline_notMem_of_mem_returnedLines plain)
    (returnedLines_ne_nil (lines_ne_nil cs))

/-- Joined with a carriage return at each end, the text ends in a carriage return more. -/
theorem unlines_map_return (some : ls ≠ []) :
    unlines (ls.map (· ++ ['\r'])) = unlines (returnedLines ls) ++ ['\r'] := by
  induction ls with
  | nil => exact absurd rfl some
  | cons l ls ih =>
    by_cases last : ls = []
    · subst last
      simp [returnedLines]
    · rw [List.map_cons, unlines_cons_of_ne_nil _ (by simpa using last), ih last,
        returnedLines_cons l last, unlines_cons_of_ne_nil _ (returnedLines_ne_nil last),
        List.append_assoc, List.cons_append, List.append_assoc]
      simp

/-! ### Trimming -/

/-- Cutting blanks at the start, where each character becomes blanks or itself. -/
theorem trimStart_flatMap {f : Char → List Char}
    (blank : ∀ c, isBlank c = true → allBlank (f c) = true)
    (shown : ∀ c, isBlank c = false → f c = [c]) (cs : List Char) :
    trimStart (cs.flatMap f) = (trimStart cs).flatMap f := by
  induction cs with
  | nil => rfl
  | cons c cs ih =>
    rw [List.flatMap_cons]
    cases kind : isBlank c with
    | true =>
      rw [trimStart_append_of_blank (blank c kind), ih, ← List.singleton_append (l := cs),
        trimStart_append_of_blank (by simpa [allBlank] using kind)]
    | false =>
      rw [shown c kind]
      simp [trimStart, kind, shown c kind]

theorem allBlank_returned {c : Char} (blank : isBlank c = true) : allBlank (returned c) = true := by
  rw [returned]
  split
  · decide
  · simpa [allBlank] using blank

theorem returned_of_shown {c : Char} (shown : isBlank c = false) : returned c = [c] := by
  refine if_neg fun feed => ?_
  rw [feed, isBlank_newline] at shown
  exact absurd shown (by decide)

/-- **Trimming a text with carriage returns** is trimming the text. -/
theorem trim_addReturns (cs : List Char) : trim (addReturns cs) = addReturns (trim cs) := by
  have start : ∀ cs, trimStart (addReturns cs) = addReturns (trimStart cs) :=
    trimStart_flatMap (fun _ => allBlank_returned) fun _ => returned_of_shown
  have back : ∀ cs, (addReturns cs).reverse = cs.reverse.flatMap (List.reverse ∘ returned) :=
    fun cs => List.reverse_flatMap
  have finish : ∀ cs, trimStart (addReturns cs).reverse = (addReturns (trimEnd cs)).reverse := by
    intro cs
    rw [back, back, trimStart_flatMap, trimEnd_eq, List.reverse_reverse]
    · intro c blank
      rw [Function.comp_apply, allBlank_reverse, allBlank_returned blank]
    · intro c shown
      rw [Function.comp_apply, returned_of_shown shown, List.reverse_singleton]
  rw [trim, start, trimEnd_eq, finish, List.reverse_reverse, trim]

end Expunge.Text
