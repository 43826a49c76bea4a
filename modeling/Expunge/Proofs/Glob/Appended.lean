import Expunge.Proofs.Glob.Lists
import Mathlib.Data.List.Induction

/-!
# Patterns behind a list of patterns

Patterns that can be used may stand behind a list that can be used: the list is read as before, and
what they hold comes behind it (`exists_ofPatterns_append`, `exists_rulesOfSettings_append`). A
selection so takes no less, and ignore lines that show nothing again hide no less
(`ignores_append_of_hiding`).
-/

namespace Expunge.Glob
set_option autoImplicit false
open Text

section Except

variable {ε α β : Type} {x : Except ε α} {b : β}

theorem bind_eq_ok_iff {f : α → Except ε β} : x.bind f = .ok b ↔ ∃ a, x = .ok a ∧ f a = .ok b := by
  cases x <;> simp [Except.bind]

theorem map_eq_ok_iff {f : α → β} : x.map f = .ok b ↔ ∃ a, x = .ok a ∧ f a = b := by
  cases x <;> simp [Except.map]

end Except

variable {ps qs : List Pattern} {rules extra : List IgnoreRule} {items more : List String}

/-! ### Reading a longer list -/

theorem Pattern.checked_eq_ok_iff :
    checked ps = .ok qs ↔ qs = ps ∧ ∀ p ∈ ps, p.isUsable = true := by
  rw [← nestingFault?_eq_none_iff, checked]
  cases nestingFault? ps <;> simp [eq_comm]

theorem Selection.ofPatterns_eq_ok_iff {sel : Selection} : ofPatterns items = .ok sel ↔
    readPatterns items = .ok sel.patterns ∧ ∀ p ∈ sel.patterns, p.isUsable = true := by
  simp only [ofPatterns, map_eq_ok_iff, bind_eq_ok_iff, Pattern.checked_eq_ok_iff]
  constructor
  · rintro ⟨_, ⟨ps, read, rfl, usable⟩, rfl⟩
    exact ⟨read, usable⟩
  · rintro ⟨read, usable⟩
    exact ⟨sel.patterns, ⟨sel.patterns, read, rfl, usable⟩, rfl⟩

theorem rulesOfSettings_eq_ok_iff : rulesOfSettings items = .ok rules ↔
    readLines items = .ok rules ∧ ∀ r ∈ rules, r.pattern.isUsable = true := by
  simp only [rulesOfSettings, checkedRules, bind_eq_ok_iff, map_eq_ok_iff,
    Pattern.checked_eq_ok_iff, List.forall_mem_map]
  constructor
  · rintro ⟨_, read, _, ⟨-, usable⟩, rfl⟩
    exact ⟨read, usable⟩
  · rintro ⟨read, usable⟩
    exact ⟨rules, read, _, ⟨rfl, usable⟩, rfl⟩

/-- Patterns are read one by one. -/
theorem Selection.readPatterns_append (first : readPatterns items = .ok ps)
    (second : readPatterns more = .ok qs) : readPatterns (items ++ more) = .ok (ps ++ qs) := by
  induction items generalizing ps with
  | nil =>
    cases first
    exact second
  | cons item items ih =>
    rw [List.cons_append]
    rw [readPatterns] at first ⊢
    split at first
    · cases first
    · obtain ⟨ps', rest, rfl⟩ := map_eq_ok_iff.1 first
      exact map_eq_ok_iff.2 ⟨_, ih rest, rfl⟩

/-- Ignore lines are read one by one. -/
theorem readLines_append (first : readLines items = .ok rules)
    (second : readLines more = .ok extra) : readLines (items ++ more) = .ok (rules ++ extra) := by
  induction items generalizing rules with
  | nil =>
    cases first
    exact second
  | cons item items ih =>
    rw [List.cons_append]
    rw [readLines] at first ⊢
    split at first
    · cases first
    · obtain ⟨rules', rest, rfl⟩ := map_eq_ok_iff.1 first
      exact map_eq_ok_iff.2 ⟨_, ih rest, (List.append_assoc ..).symm⟩

/-- Patterns that can be used may stand behind others. -/
theorem exists_ofPatterns_append {sel : Selection} (first : Selection.ofPatterns items = .ok sel)
    (usable : ∀ item ∈ more, IsInclude item) :
    ∃ qs, Selection.ofPatterns (items ++ more) = .ok ⟨sel.patterns ++ qs⟩ := by
  obtain ⟨read, usable'⟩ := Selection.ofPatterns_eq_ok_iff.1 first
  obtain ⟨qs, read', usable⟩ := exists_readPatterns_iff.2 usable
  exact ⟨qs, Selection.ofPatterns_eq_ok_iff.2 ⟨Selection.readPatterns_append read read',
    List.forall_mem_append.2 ⟨usable', usable⟩⟩⟩

/-! ### Lines that show nothing again -/

/-- The significant part of a line starts as the line does. -/
theorem significant_prefix (line : List Char) : IgnoreRule.significant line <+: line := by
  rw [IgnoreRule.significant]
  split
  · exact List.prefix_refl _
  · exact trimEnd_prefix line

/-- The end of a line has nothing to do with what it shows again. -/
theorem reincludes_cutEnd (parts : IgnoreRule.Parts) :
    parts.cutEnd.reincludes = parts.reincludes := by
  unfold IgnoreRule.Parts.cutEnd
  split <;> rfl

/-- A line shows again what is hidden if it starts with the mark for that. -/
theorem reincludes_ofStart {line : List Char} (plain : line.head? ≠ some '!') :
    (IgnoreRule.Parts.ofStart line).reincludes = false := by
  unfold IgnoreRule.Parts.ofStart
  split <;> simp_all

/-- The rule of a line without the mark hides. -/
theorem reincludes_ofLine {line : List Char} {rule : IgnoreRule}
    (read : IgnoreRule.ofLine line = .ok (some rule)) (plain : line.head? ≠ some '!') :
    rule.reincludes = false := by
  have start : (IgnoreRule.significant line).head? ≠ some '!' := by
    obtain ⟨rest, whole⟩ := significant_prefix line
    intro mark
    obtain ⟨cs, e⟩ := List.head?_eq_some_iff.1 mark
    rw [e] at whole
    exact plain (by rw [← whole]; rfl)
  unfold IgnoreRule.ofLine at read
  split at read
  · cases read
  dsimp only at read
  split at read
  · cases read
  split at read
  · cases read
  · cases read
    exact (reincludes_cutEnd _).trans (reincludes_ofStart start)

/-- Lines without the mark hold rules that hide. -/
theorem reincludes_readLines (read : readLines more = .ok extra)
    (plain : ∀ line ∈ more, line.toList.head? ≠ some '!') : ∀ r ∈ extra, r.reincludes = false := by
  induction more generalizing extra with
  | nil =>
    cases read
    simp
  | cons line lines ih =>
    rw [List.forall_mem_cons] at plain
    rw [readLines] at read
    split at read
    · cases read
    · rename_i rule? here
      obtain ⟨rules, rest, rfl⟩ := map_eq_ok_iff.1 read
      refine List.forall_mem_append.2 ⟨fun r mem => ?_, ih rest plain.2⟩
      rw [Option.mem_toList] at mem
      cases mem
      exact reincludes_ofLine here plain.1

/-- Ignore lines that can be used may stand behind others, and those without the mark hold rules
that hide. -/
theorem exists_rulesOfSettings_append (first : rulesOfSettings items = .ok rules)
    (usable : ∀ line ∈ more, IsExclude line) (plain : ∀ line ∈ more, line.toList.head? ≠ some '!') :
    ∃ extra, rulesOfSettings (items ++ more) = .ok (rules ++ extra) ∧
      ∀ r ∈ extra, r.reincludes = false := by
  obtain ⟨read, usable'⟩ := rulesOfSettings_eq_ok_iff.1 first
  obtain ⟨extra, read', usable⟩ := exists_readLines_iff.2 usable
  exact ⟨extra, rulesOfSettings_eq_ok_iff.2 ⟨readLines_append read read',
    List.forall_mem_append.2 ⟨usable', usable⟩⟩, reincludes_readLines read' plain⟩

/-- **What rules hide stays hidden** with rules behind them that show nothing again. -/
theorem ignores_append_of_hiding (hide : ∀ r ∈ extra, r.reincludes = false) {path : List UInt8}
    {isDirectory : Bool} (h : ignores rules path isDirectory = true) :
    ignores (rules ++ extra) path isDirectory = true := by
  induction extra using List.reverseRecOn with
  | nil => rwa [List.append_nil]
  | append_singleton extra r ih =>
    rw [List.forall_mem_append] at hide
    rw [← List.append_assoc, ignores_append]
    split
    · rw [hide.2 r (List.mem_singleton_self r)]
      rfl
    · exact ih hide.1

end Expunge.Glob
