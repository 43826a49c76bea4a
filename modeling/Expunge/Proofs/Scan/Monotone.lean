import Expunge.Proofs.Glob.Appended
import Expunge.Proofs.Scan.Restricted
import Expunge.Proofs.Scan.Selected

/-!
# Settings that find more or less

More include patterns find more files: the walk goes through the same directories, whatever the
links of the tree are, and picks more of their files (`discover_more_includes`). More lines that
hide, or the ignore file that hides, cut off parts of the walk, and where each directory has one path
every file that is then left was there before (`files_walk_subset_of_hides`).
-/

namespace Expunge
set_option autoImplicit false
open Expunge.Path

variable {t : FileTree} {root : String} {scan : ScanSettings} {found : Discovery}
  {includes : Glob.Selection} {fileRules fileRules' excludes excludes' : List Glob.IgnoreRule}
  {qs : List Glob.Pattern}

theorem Glob.Selection.contains_append (includes : Glob.Selection) (qs : List Glob.Pattern)
    (path : String) : Glob.Selection.contains ⟨includes.patterns ++ qs⟩ path =
      (includes.contains path || Glob.Selection.contains ⟨qs⟩ path) := by
  simp [contains, List.any_append]

/-- A scope with more include patterns is restricted by the patterns that were there before. -/
theorem restricts_of_more_includes : Scope.Restricts (fun rel => includes.contains (below "" rel))
    (scopeOf t root ⟨includes.patterns ++ qs⟩ fileRules excludes)
    (scopeOf t root includes fileRules excludes) where
  tree := rfl
  root := rfl
  find _ _ _ := Iff.rfl
  key _ _ _ _ := rfl
  ignores := rfl
  selects rel := by
    show includes.contains (below "" rel) =
      (Glob.Selection.contains ⟨includes.patterns ++ qs⟩ (below "" rel) &&
        includes.contains (below "" rel))
    rw [Glob.Selection.contains_append]
    cases includes.contains (below "" rel) <;> simp

/-- **More include patterns find more files**, and the same errors. -/
theorem discover_more_includes :
    (scopeOf t root includes fileRules excludes).discover.files ⊆
        (scopeOf t root ⟨includes.patterns ++ qs⟩ fileRules excludes).discover.files ∧
      (scopeOf t root ⟨includes.patterns ++ qs⟩ fileRules excludes).discover.errors =
        (scopeOf t root includes fileRules excludes).discover.errors := by
  have less : (scopeOf t root includes fileRules excludes).walk =
      (scopeOf t root ⟨includes.patterns ++ qs⟩ fileRules excludes).walk.restrict
        fun rel => includes.contains (below "" rel) :=
    restricts_of_more_includes.walk_eq
  refine ⟨fun rel mem => ?_, ?_⟩
  · rw [mem_files_discover, less] at mem
    exact mem_files_discover.2 (List.mem_filter.1 mem).1
  · rw [Scope.discover, Scope.discover, less]
    rfl

/-- **Rules that hide more leave less**, in a tree without links. -/
theorem files_walk_subset_of_hides (free : t.LinkFree)
    (file : ∀ rel isDirectory, hides root fileRules rel isDirectory = true →
      hides root fileRules' rel isDirectory = true)
    (lines : ∀ rel isDirectory, hides root excludes rel isDirectory = true →
      hides root excludes' rel isDirectory = true) :
    (scopeOf t root includes fileRules' excludes').walk.files ⊆
      (scopeOf t root includes fileRules excludes).walk.files := by
  have shown : ∀ {rel isDirectory},
      hides root fileRules' rel isDirectory = false ∧ hides root excludes' rel isDirectory = false →
      hides root fileRules rel isDirectory = false ∧ hides root excludes rel isDirectory = false := by
    intro rel isDirectory none
    simp only [← Bool.not_eq_true] at none ⊢
    exact none.imp (mt (file rel isDirectory)) (mt (lines rel isDirectory))
  intro rel mem
  cases refused : (scopeOf t root includes fileRules' excludes').refusal? [] with
  | some cause =>
    -- a root that is no directory holds no files
    rw [Scope.walk, Scope.walkDirectory_of_refused refused] at mem
    cases mem
  | none =>
    obtain ⟨top, place⟩ := Scope.refusal?_eq_none_iff.1 refused
    have place : t.find root = .ok (.directory top) := place
    rw [mem_files_walk_scopeOf_iff free place] at mem ⊢
    exact ⟨mem.file, fun way start some proper => shown (mem.reached way start some proper),
      shown mem.shown, mem.included⟩

/-- A discovery by settings that can be used. -/
theorem discover_eq (compiled : Glob.Selection.ofPatterns scan.includes = .ok includes)
    (read : Glob.rulesOfSettings scan.excludes = .ok excludes) :
    discover t root scan =
      .ok (scopeOf t root includes (fileRulesOf t root scan) excludes).discover := by
  rw [discover, scope?, compiled, read]
  rfl

/-- **Discovery is monotone in its settings.** More include patterns find no file less and the same
errors, in every tree. In a tree without links more ignore lines that show nothing again find no file
more, and without the ignore file of the root no file less is found. -/
theorem discover_monotone (discovered : discover t root scan = .ok found) :
    (∀ more, (∀ pattern ∈ more, Glob.IsInclude pattern) →
      ∃ found', discover t root { scan with includes := scan.includes ++ more } = .ok found' ∧
        found.files ⊆ found'.files ∧ found'.errors = found.errors) ∧
    (t.LinkFree →
      (∀ more, (∀ line ∈ more, Glob.IsExclude line ∧ line.toList.head? ≠ some '!') →
        ∃ found', discover t root { scan with excludes := scan.excludes ++ more } = .ok found' ∧
          found'.files ⊆ found.files) ∧
      ∃ found', discover t root { scan with disableGitignore := true } = .ok found' ∧
        found.files ⊆ found'.files) := by
  obtain ⟨includes, excludes, compiled, read, rfl⟩ := exists_scope_of_discover discovered
  refine ⟨fun more usable => ?includes, fun free => ⟨fun more usable => ?excludes, ?file⟩⟩
  case includes =>
    obtain ⟨qs, compiled'⟩ := Glob.exists_ofPatterns_append compiled usable
    exact ⟨_, discover_eq compiled' read, discover_more_includes⟩
  case excludes =>
    obtain ⟨extra, read', hide⟩ := Glob.exists_rulesOfSettings_append read
      (fun line mem => (usable line mem).1) fun line mem => (usable line mem).2
    refine ⟨_, discover_eq compiled read', fun rel mem => ?_⟩
    rw [mem_files_discover] at mem ⊢
    exact files_walk_subset_of_hides free (fun _ _ h => h)
      (fun _ _ h => Glob.ignores_append_of_hiding hide h) mem
  case file =>
    refine ⟨_, discover_eq compiled read, fun rel mem => ?_⟩
    rw [mem_files_discover] at mem ⊢
    refine files_walk_subset_of_hides free (fun _ _ h => ?_) (fun _ _ h => h) mem
    rw [fileRulesOf, if_pos rfl, hides, Glob.ignores_nil] at h
    cases h

/-- A pattern that takes one more file, and a line that hides the one that was found. -/
theorem discover_monotone_hiddenTree :
    discover hiddenTree "src" {} = .ok ⟨[["lib.rs"]], []⟩ ∧
      ((∀ pattern ∈ ["notes"], Glob.IsInclude pattern) ∧
        ∃ found', discover hiddenTree "src" { includes := [defaultInclude] ++ ["notes"] } =
          .ok found' ∧ [["lib.rs"]] ⊆ found'.files ∧ found'.errors = []) ∧
      hiddenTree.LinkFree ∧
      ((∀ line ∈ ["lib.*"], Glob.IsExclude line ∧ line.toList.head? ≠ some '!') ∧
        ∃ found', discover hiddenTree "src" { excludes := [] ++ ["lib.*"] } = .ok found' ∧
          found'.files ⊆ [["lib.rs"]]) ∧
      ∃ found', discover hiddenTree "src" { disableGitignore := true } = .ok found' ∧
        [["lib.rs"]] ⊆ found'.files := by
  have free : hiddenTree.LinkFree := by decide
  have discovered : discover hiddenTree "src" {} = .ok ⟨[["lib.rs"]], []⟩ :=
    discover_eq_of_walk (by decide +kernel) (by decide)
  have usable : ∀ pattern ∈ ["notes"], Glob.IsInclude pattern :=
    Glob.isOk_ofPatterns_iff.1 (by decide +kernel)
  have usable' : ∀ line ∈ ["lib.*"], Glob.IsExclude line :=
    Glob.isOk_rulesOfSettings_iff.1 (by decide +kernel)
  have hide : ∀ line ∈ ["lib.*"], Glob.IsExclude line ∧ line.toList.head? ≠ some '!' :=
    fun line mem => ⟨usable' line mem, by rw [List.mem_singleton.1 mem]; decide⟩
  obtain ⟨more, rules⟩ := discover_monotone discovered
  obtain ⟨fewer, all⟩ := rules free
  exact ⟨discovered, ⟨usable, more ["notes"] usable⟩, free, ⟨hide, fewer ["lib.*"] hide⟩, all⟩

end Expunge
