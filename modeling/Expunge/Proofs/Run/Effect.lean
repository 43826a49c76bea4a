import Expunge.Proofs.Run.Batch
import Expunge.Proofs.Scan.Picks

/-!
# The effect of a real run

In a tree without links the files that a discovery finds are a batch (`batch_discover`), so a real
run has the effect of its files one by one and no other (`RunEffect`).
-/

namespace Expunge
set_option autoImplicit false
open Expunge.Path

/-- The report on a file that is processed alone. -/
def reportAlone (t : FileTree) (s : Settings) (mode : RunMode) (path : String) : FileReport :=
  (treatFile t path s mode).1

/-- What a real run over some files of a tree tells and leaves. -/
structure RunEffect (t : FileTree) (s : Settings) (mode : RunMode) (files : List String)
    (summary : Summary) (after : FileTree) : Prop where
  /-- Each file is reported, in order, as if it were the only one. -/
  reports : summary.reports = files.map (reportAlone t s mode)
  /-- Each file is treated as its bytes say. -/
  each : ∀ path ∈ files, ∃ loc bytes, t.find path = .ok (.file loc bytes) ∧
    FileEffect s mode (t.refusals loc) path bytes (reportAlone t s mode path) (after.get? loc)
  /-- Everything else is as before. -/
  rest : ∀ loc, (∀ path ∈ files, ∀ bytes, t.find path ≠ .ok (.file loc bytes)) →
    after.get? loc = t.get? loc
  /-- Every order of the files gives the same tree, and the same report on each. -/
  anyOrder : ∀ order : List String, order.Perm files → ∀ start,
    treatFiles s mode order (start, t) =
      ((order.map (reportAlone t s mode)).foldl Summary.add start, after)
  /-- Without one file the others are treated the same. -/
  without : ∀ path ∈ files, ∀ loc bytes, t.find path = .ok (.file loc bytes) → ∀ start,
    ∃ after', treatFiles s mode (files.erase path) (start, t) =
        (((files.erase path).map (reportAlone t s mode)).foldl Summary.add start, after') ∧
      ∀ l, l ≠ loc → after'.get? l = after.get? l
  /-- Whatever bytes one file holds and whatever is refused there, be it readable or not, the others
  are treated the same. -/
  isolated : ∀ path ∈ files, ∀ loc bytes, t.find path = .ok (.file loc bytes) →
    ∀ bytes' refused start, ∃ report' after',
      treatFiles s mode files (start, t.tampered loc bytes' refused) =
        ((files.map report').foldl Summary.add start, after') ∧
      (∀ other ∈ files, other ≠ path → report' other = reportAlone t s mode other) ∧
      ∀ l, l ≠ loc → after'.get? l = after.get? l

variable {t : FileTree} {root : String} {s : Settings} {mode : RunMode} {paths : List String}

/-- A batch has its effect. -/
theorem FileTree.Batch.runEffect (free : t.LinkFree) (batch : t.Batch paths)
    (real : mode.dryRun = false) (start : Summary) (fresh : start.reports = []) :
    RunEffect t s mode paths (treatFiles s mode paths (start, t)).1
      (treatFiles s mode paths (start, t)).2 := by
  rw [FileTree.treatFiles_eq free batch real]
  constructor
  case reports =>
    rw [Summary.reports_foldl_add, fresh]
    rfl
  case each =>
    intro path mem
    obtain ⟨loc, bytes, found⟩ := batch.found path mem
    refine ⟨loc, bytes, found, ?_⟩
    rw [reportAlone, treatFile_eq free (batch.spelled path mem) found real,
      FileTree.get?_treated mem found]
    exact fileEffect_real s mode (t.refusals loc) path bytes
  case rest =>
    intro loc other
    refine FileTree.get?_treated_of_not_mem fun mem => ?_
    obtain ⟨path, listed, place⟩ := List.mem_map.1 mem
    obtain ⟨bytes, found⟩ := FileTree.exists_find_of_fileAt? place
    exact other path listed bytes found
  case anyOrder =>
    intro order perm start'
    rw [FileTree.treatFiles_eq free (batch.perm perm) real, FileTree.treated_perm perm]
    rfl
  case without =>
    intro path mem loc bytes found start'
    have part : t.Batch (paths.erase path) := batch.sublist List.erase_sublist
    refine ⟨_, FileTree.treatFiles_eq free part real start', fun l apart => ?_⟩
    exact FileTree.get?_treated_erase found apart
  case isolated =>
    intro path mem loc bytes found bytes' refused start'
    refine ⟨_, _, FileTree.treatFiles_eq (free.tampered found) (batch.tampered found) real start',
      fun other mem' different => ?_, fun l apart => ?_⟩
    · exact FileTree.treatFile_tampered free batch real mem found mem' different
    · exact FileTree.get?_treated_tampered batch found apart

/-- What a directory is found at, by a path that is not empty. -/
theorem exists_resolve_of_isDirectory (here : t.isDirectory root = true) :
    root ≠ "" ∧ ∃ top, t.resolve false root = .ok (.taken top) := by
  obtain ⟨top, found⟩ := FileTree.isDirectory_iff.1 here
  exact ⟨FileTree.ne_empty_of_find found, top, FileTree.resolve_of_find found⟩

/-- The files of a discovery are a batch. -/
theorem batch_discover (scope : Scope) (free : scope.tree.LinkFree)
    (here : scope.tree.isDirectory scope.root = true) :
    scope.tree.Batch (scope.discover.files.map (below scope.root)) := by
  obtain ⟨some, top, resolved⟩ := exists_resolve_of_isDirectory here
  obtain ⟨nodup, picks⟩ := scope.discover_files
  have names : ∀ rel ∈ scope.discover.files, ∀ name ∈ rel, IsFileName name :=
    fun rel mem => (picks rel mem).1
  have place : ∀ rel ∈ scope.discover.files,
      scope.tree.fileAt? (below scope.root rel) = Option.some (rel.reverse ++ top) := by
    intro rel mem
    obtain ⟨-, -, loc, bytes, found⟩ := picks rel mem
    have reached := (FileTree.find_eq_file_iff.1 found).1
    rw [FileTree.fileAt?_of_find found,
      FileTree.eq_of_resolve_below free (names rel mem) resolved some reached]
  constructor
  case spelled =>
    intro path mem
    obtain ⟨rel, listed, rfl⟩ := List.mem_map.1 mem
    exact endsInName_below some (names rel listed) (picks rel listed).2.1
  case found =>
    intro path mem
    obtain ⟨rel, listed, rfl⟩ := List.mem_map.1 mem
    exact (picks rel listed).2.2
  case apart =>
    rw [List.map_map]
    apply nodup.map_on
    intro rel mem rel' mem' same
    rw [Function.comp_apply, Function.comp_apply, place rel mem, place rel' mem',
      Option.some.injEq, List.append_cancel_right_eq, List.reverse_inj] at same
    exact same

/-- A real run has the effect of the files that its discovery finds, and no other. -/
theorem run_effect (free : t.LinkFree) (here : t.isDirectory root = true)
    (includes : (Glob.Selection.ofPatterns s.scan.includes).isOk = true)
    (excludes : (Glob.rulesOfSettings s.scan.excludes).isOk = true)
    (real : mode.dryRun = false) :
    ∃ found summary after, discover t root s.scan = .ok found ∧
      run t root s mode = (.ok summary, after) ∧
      RunEffect t s mode (found.files.map (below root)) summary after := by
  obtain ⟨selection, includes⟩ := exists_of_isOk includes
  obtain ⟨rules, excludes⟩ := exists_of_isOk excludes
  let scope := scopeOf t root selection
    (if s.scan.disableGitignore then [] else ignoreRulesAt t root) rules
  have discovered : discover t root s.scan = .ok scope.discover := by
    rw [discover, scope?, includes, excludes]
    rfl
  let start : Summary := { dryRun := mode.dryRun, errors := scope.discover.fileErrors root }
  let done := treatFiles s mode (scope.discover.files.map (below root)) (start, t)
  have started : run t root s mode = (.ok done.1, done.2) :=
    run_eq_ok_iff.2 ⟨here, _, discovered, rfl⟩
  have batch : t.Batch (scope.discover.files.map (below root)) :=
    batch_discover scope free here
  exact ⟨scope.discover, _, _, discovered, started, batch.runEffect free real start rfl⟩

/-- A tree with a licensed file, one that is no text and one that no pattern selects. -/
def sampleTree : FileTree where
  entries :=
    [(["src"], .directory),
      (["lib.rs", "src"], .file ("// SPDX-SnippetBegin\n// SPDX-License-Identifier: " ++
        "LicenseRef-SEL\n// SPDX-SnippetEnd\nfn main() {}\n").toUTF8),
      (["old.rs", "src"], .file ⟨#[255]⟩), (["notes", "src"], .file "".toUTF8)]

theorem run_effect_sampleTree :
    ∃ found summary after, discover sampleTree "src" ({} : Settings).scan = .ok found ∧
      run sampleTree "src" {} {} = (.ok summary, after) ∧
      RunEffect sampleTree {} {} (found.files.map (below "src")) summary after := by
  have free : sampleTree.LinkFree := by decide
  have here : sampleTree.isDirectory "src" = true := by decide
  have includes : (Glob.Selection.ofPatterns ({} : Settings).scan.includes).isOk = true := by
    decide +kernel
  have excludes : (Glob.rulesOfSettings ({} : Settings).scan.excludes).isOk = true := by decide
  exact run_effect free here includes excludes rfl

end Expunge
