import Expunge.Glob.Ignore
import Expunge.Glob.Selection

/-!
# Lists of patterns

A list of patterns can be used exactly if each of them can be used on its own
(`isOk_ofPatterns_iff`, `isOk_rulesOfSettings_iff`): what one pattern is refused for has nothing to
do with the others.
-/

namespace Expunge.Glob
set_option autoImplicit false

variable {p : Pattern} {ps : List Pattern}

/-- The expression of a pattern is not nested too deep for the way it is tested. -/
def Pattern.isUsable (p : Pattern) : Bool :=
  !p.isTooDeep .extensionFirst && !p.isTooDeep .expression

/-- An include pattern that can be used. -/
def IsInclude (pattern : String) : Prop :=
  ∃ p, read pathDialect pattern.toList = .ok p ∧ p.isUsable = true

/-- An ignore line that can be used: a rule, or a line that holds none. -/
def IsExclude (line : String) : Prop :=
  ∃ rule?, IgnoreRule.ofLine line.toList = .ok rule? ∧ ∀ rule ∈ rule?, rule.pattern.isUsable = true

/-! ### Nesting -/

theorem Pattern.nestingFault?_eq_none_iff :
    nestingFault? ps = none ↔ ∀ p ∈ ps, p.isUsable = true := by
  rw [nestingFault?]
  cases deep : ps.find? (isTooDeep .extensionFirst) with
  | some p =>
    have tooDeep := List.find?_some deep
    simp only [reduceCtorEq, false_iff]
    intro usable
    simpa [isUsable, tooDeep] using usable p (List.mem_of_find?_eq_some deep)
  | none =>
    have extensions := List.find?_eq_none.1 deep
    simp only [Option.map_eq_none_iff, List.findIdx?_eq_none_iff]
    constructor
    · intro expressions p mem
      have extension : p.isTooDeep .extensionFirst = false := by simpa using extensions p mem
      have expression : p.isTooDeep .expression = false := by
        cases tested : p.approach == .expression with
        | false => simp [isTooDeep, tested]
        | true => exact expressions p (List.mem_filter.2 ⟨mem, tested⟩)
      simp [isUsable, extension, expression]
    · intro usable p mem
      have both := usable p (List.mem_filter.1 mem).1
      rw [isUsable, Bool.and_eq_true] at both
      simpa using both.2

theorem Pattern.isOk_checked_iff :
    (Pattern.checked ps).isOk = true ↔ ∀ p ∈ ps, p.isUsable = true := by
  rw [← nestingFault?_eq_none_iff, checked]
  cases nestingFault? ps <;> simp [Except.isOk, Except.toBool]

/-! ### Lists of texts -/

theorem isOk_bind_iff {ε α β : Type} {x : Except ε α} {f : α → Except ε β} :
    (x.bind f).isOk = true ↔ ∃ a, x = .ok a ∧ (f a).isOk = true := by
  cases x <;> simp [Except.bind, Except.isOk, Except.toBool]

theorem isOk_map {ε α β : Type} (x : Except ε α) (f : α → β) : (x.map f).isOk = x.isOk := by
  cases x <;> rfl

/-- A list of patterns is read exactly if each of them is. -/
theorem exists_readPatterns_iff {items : List String} :
    (∃ ps, Selection.readPatterns items = .ok ps ∧ ∀ p ∈ ps, p.isUsable = true) ↔
      ∀ item ∈ items, IsInclude item := by
  induction items with
  | nil => simp [Selection.readPatterns]
  | cons item items ih =>
    rw [List.forall_mem_cons, ← ih, Selection.readPatterns, IsInclude]
    cases read pathDialect item.toList with
    | error cause => simp
    | ok p => cases Selection.readPatterns items <;> simp [Except.map]

/-- A list of ignore lines is read exactly if each of them is. -/
theorem exists_readLines_iff {lines : List String} :
    (∃ rules, readLines lines = .ok rules ∧ ∀ rule ∈ rules, rule.pattern.isUsable = true) ↔
      ∀ line ∈ lines, IsExclude line := by
  induction lines with
  | nil => simp [readLines]
  | cons line lines ih =>
    rw [List.forall_mem_cons, ← ih, readLines, IsExclude]
    cases IgnoreRule.ofLine line.toList with
    | error refusal => simp
    | ok rule? => cases rule? <;> cases readLines lines <;> simp [Except.map]

/-- **Include patterns are used exactly if each of them can be.** -/
theorem isOk_ofPatterns_iff {items : List String} :
    (Selection.ofPatterns items).isOk = true ↔ ∀ item ∈ items, IsInclude item := by
  rw [← exists_readPatterns_iff, Selection.ofPatterns, isOk_map, isOk_bind_iff]
  simp only [Pattern.isOk_checked_iff]

/-- **Ignore lines are used exactly if each of them can be.** -/
theorem isOk_rulesOfSettings_iff {lines : List String} :
    (rulesOfSettings lines).isOk = true ↔ ∀ line ∈ lines, IsExclude line := by
  rw [← exists_readLines_iff, rulesOfSettings, isOk_bind_iff]
  simp only [checkedRules, isOk_map, Pattern.isOk_checked_iff, List.forall_mem_map]

end Expunge.Glob
