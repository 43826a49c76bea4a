import Expunge.Text.Lines

/-!
# Joining and cutting lines

What the lines of a text are made of, what joining does to two lists of lines, and how
`takeThrough` and `dropThrough` meet a list that is known to hold the line they look for.
`weight_unlines` gives the size of a text from the sizes of its lines, in characters or in bytes.
-/

namespace Expunge.Text
set_option autoImplicit false

/-- No piece of a text that is split at a character holds that character. -/
theorem notMem_of_mem_splitOn {c : Char} {cs piece : List Char} (h : piece ∈ cs.splitOn c) :
    c ∉ piece := by
  induction cs generalizing piece with
  | nil =>
    rw [List.splitOn_nil, List.mem_singleton] at h
    simp [h]
  | cons d cs ih =>
    rw [List.splitOn_cons_eq_if_modifyHead] at h
    split at h
    · rcases List.mem_cons.1 h with rfl | h
      · simp
      · exact ih h
    · rename_i other
      obtain ⟨first, rest, e⟩ := List.exists_cons_of_ne_nil (List.splitOn_ne_nil c cs)
      rw [e, List.modifyHead_cons, List.mem_cons] at h
      rcases h with rfl | h
      · have plain := ih (e ▸ List.mem_cons_self)
        simp only [beq_iff_eq] at other
        simp only [List.mem_cons, not_or]
        exact ⟨fun same => other same.symm, plain⟩
      · exact ih (e ▸ List.mem_cons_of_mem _ h)

/-- No line of a text holds a line feed. -/
theorem newline_notMem_of_mem_lines {cs : List Char} {l : Line} (h : l ∈ lines cs) : '\n' ∉ l :=
  notMem_of_mem_splitOn h

/-- Lines of a text can be joined and split again, unless there are none. -/
theorem lines_unlines_of_subset {cs : List Char} {ls : List Line} (part : ls ⊆ lines cs)
    (some : ls ≠ []) : lines (unlines ls) = ls :=
  lines_unlines (fun _ h => newline_notMem_of_mem_lines (part h)) some

theorem unlines_cons_of_ne_nil (l : Line) {ls : List Line} (h : ls ≠ []) :
    unlines (l :: ls) = l ++ '\n' :: unlines ls := by
  obtain ⟨l', rest, rfl⟩ := List.exists_cons_of_ne_nil h
  exact unlines_cons_cons l l' rest

/-- A line is a part of every text that is joined from it and others. -/
theorem infix_unlines_of_mem {l : Line} {ls : List Line} (h : l ∈ ls) : l <:+: unlines ls := by
  induction ls with
  | nil => simp at h
  | cons l' ls ih =>
    by_cases last : ls = []
    · subst last
      have whole : unlines [l'] = l := by rw [unlines_singleton, List.mem_singleton.1 h]
      exact whole ▸ List.infix_rfl
    · rw [unlines_cons_of_ne_nil l' last]
      rcases List.mem_cons.1 h with rfl | h
      · exact (List.prefix_append _ _).isInfix
      · exact (ih h).trans ((List.suffix_cons _ _).trans (List.suffix_append _ _)).isInfix

/-! ### Sizes -/

/-- The size of a text, with a weight for each character. -/
def weight (w : Char → Nat) : List Char → Nat
  | [] => 0
  | c :: cs => w c + weight w cs

/-- The size of lines, each with the line feed after it. -/
def weightOfLines (w : Char → Nat) : List Line → Nat
  | [] => 0
  | l :: ls => weight w l + w '\n' + weightOfLines w ls

@[simp] theorem weight_nil (w : Char → Nat) : weight w [] = 0 := rfl

@[simp] theorem weight_cons (w : Char → Nat) (c : Char) (cs : List Char) :
    weight w (c :: cs) = w c + weight w cs := rfl

@[simp] theorem weight_append (w : Char → Nat) (as bs : List Char) :
    weight w (as ++ bs) = weight w as + weight w bs := by
  induction as with
  | nil => simp
  | cons c as ih =>
    rw [List.cons_append, weight_cons, weight_cons, ih]
    omega

@[simp] theorem weightOfLines_nil (w : Char → Nat) : weightOfLines w [] = 0 := rfl

theorem weightOfLines_cons (w : Char → Nat) (l : Line) (ls : List Line) :
    weightOfLines w (l :: ls) = weight w l + w '\n' + weightOfLines w ls := rfl

@[simp] theorem weightOfLines_append (w : Char → Nat) (as bs : List Line) :
    weightOfLines w (as ++ bs) = weightOfLines w as + weightOfLines w bs := by
  induction as with
  | nil => simp
  | cons l as ih =>
    rw [List.cons_append, weightOfLines_cons, weightOfLines_cons, ih]
    omega

/-- A joined text lacks one line feed to the size of its lines. -/
theorem weight_unlines (w : Char → Nat) {ls : List Line} (some : ls ≠ []) :
    weight w (unlines ls) + w '\n' = weightOfLines w ls := by
  induction ls with
  | nil => exact absurd rfl some
  | cons l ls ih =>
    by_cases last : ls = []
    · subst last
      simp [weightOfLines]
    · have rest := ih last
      rw [unlines_cons_of_ne_nil l last, weight_append, weight_cons, weightOfLines_cons]
      omega

/-- Lines that lack a line with a character in it join to a smaller text. -/
theorem weight_unlines_lt (w : Char → Nat) {ls ls' : List Line} (feed : 0 < w '\n')
    (less : weightOfLines w ls + w '\n' < weightOfLines w ls') :
    weight w (unlines ls) < weight w (unlines ls') := by
  have some' : ls' ≠ [] := by
    rintro rfl
    simp [weightOfLines] at less
  have whole := weight_unlines w some'
  by_cases some : ls = []
  · subst some
    rw [unlines_nil, weight_nil]
    omega
  · have part := weight_unlines w some
    omega

/-- The bytes of a text, counted character by character. -/
theorem utf8ByteSize_eq (s : String) : s.utf8ByteSize = weight Char.utf8Size s.toList := by
  have listed : ∀ cs : List Char, (String.ofList cs).utf8ByteSize = weight Char.utf8Size cs := by
    intro cs
    induction cs with
    | nil => rfl
    | cons c cs ih =>
      rw [String.ofList_cons, String.utf8ByteSize_append, String.utf8ByteSize_singleton, ih,
        weight_cons]
  rw [← listed, String.ofList_toList]

/-! ### Cutting -/

variable {p : Line → Bool}

/-- The cut stands behind the first line of the kind. -/
theorem takeThrough_append_cons {before after : List Line} {l : Line}
    (none : ∀ k ∈ before, p k = false) (here : p l = true) :
    takeThrough p (before ++ l :: after) = before ++ [l] := by
  induction before with
  | nil => simp [takeThrough, here]
  | cons k before ih =>
    rw [List.cons_append, takeThrough, if_neg (by simp [none k]), ih fun j h => none j (by simp [h])]
    rfl

theorem dropThrough_append_cons {before after : List Line} {l : Line}
    (none : ∀ k ∈ before, p k = false) (here : p l = true) :
    dropThrough p (before ++ l :: after) = after := by
  have whole := takeThrough_append_dropThrough p (before ++ l :: after)
  rw [takeThrough_append_cons none here] at whole
  simpa using whole

/-- Without a line of the kind there is nothing behind the cut. -/
theorem dropThrough_of_none {ls : List Line} (none : ∀ k ∈ ls, p k = false) :
    dropThrough p ls = [] := by
  induction ls with
  | nil => rfl
  | cons l ls ih =>
    rw [dropThrough, if_neg (by simp [none l]), ih fun k h => none k (by simp [h])]

theorem takeThrough_of_none {ls : List Line} (none : ∀ k ∈ ls, p k = false) :
    takeThrough p ls = ls := by
  have whole := takeThrough_append_dropThrough p ls
  rwa [dropThrough_of_none none, List.append_nil] at whole

/-- Lines are without a line of the kind, or there is a first one. -/
theorem none_or_first (p : Line → Bool) (ls : List Line) :
    (∀ k ∈ ls, p k = false) ∨ ∃ before l after, ls = before ++ l :: after ∧
      (∀ k ∈ before, p k = false) ∧ p l = true := by
  induction ls with
  | nil => exact .inl (by simp)
  | cons l ls ih =>
    cases here : p l with
    | true => exact .inr ⟨[], l, ls, rfl, by simp, here⟩
    | false =>
      rcases ih with none | ⟨before, l', after, rfl, none, first⟩
      · exact .inl (by simpa [here] using none)
      · exact .inr ⟨l :: before, l', after, rfl, by simpa [here] using none, first⟩

end Expunge.Text
