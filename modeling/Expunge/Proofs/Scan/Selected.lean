import Expunge.Proofs.Scan.Orderly
import Mathlib.Data.List.Sort

/-!
# The files that a discovery selects

In a tree without links a directory is reached by one path. So a walk lists a directory if no
directory on the way to it is ignored, and a discovery finds the files that are not ignored, stand
in such a directory and are selected, in the order of their paths and whatever the order of listing
is (`discover_selects`).
-/

namespace Expunge
set_option autoImplicit false
open Expunge.Path

namespace Scope

variable {s : Scope} {rel dir : RelPath} {name : FileName} {loc top : Location}

/-- The directory at the path can be walked: neither it nor one on the way to it is ignored. -/
def IsOpen (s : Scope) (dir : RelPath) : Prop :=
  ∀ way, way <+: dir → way ≠ [] → s.ignores way true = false

theorem isOpen_nil (s : Scope) : s.IsOpen [] := by
  intro way start some
  exact absurd (List.prefix_nil.1 start) some

theorem isOpen_concat_iff :
    s.IsOpen (dir ++ [name]) ↔ s.IsOpen dir ∧ s.ignores (dir ++ [name]) true = false := by
  constructor
  · intro h
    exact ⟨fun way start => h way (start.trans (List.prefix_append ..)),
      h _ (List.prefix_refl _) (by simp)⟩
  · rintro ⟨around, kept⟩ way start some
    obtain rfl | start := List.prefix_concat_iff.1 start
    · exact kept
    · exact around way start some

/-- A walk lists directories that can be walked. -/
theorem Lists.isOpen (h : s.Lists dir loc) : s.IsOpen dir := by
  induction dir using List.reverseRecOn generalizing loc with
  | nil => exact s.isOpen_nil
  | append_singleton dir name ih =>
    obtain ⟨⟨around, lists, -⟩, kept⟩ := h.of_concat
    exact isOpen_concat_iff.2 ⟨ih lists, kept⟩

theorem isFileName_concat (outer : ∀ n ∈ dir, IsFileName n) (entry : name ∈ s.tree.children loc) :
    ∀ n ∈ dir ++ [name], IsFileName n := by
  intro n mem
  rcases List.mem_append.1 mem with mem | mem
  · exact outer n mem
  · rw [List.mem_singleton.1 mem]
    exact FileTree.isFileName_of_mem_children entry

theorem Lists.isFileName (h : s.Lists dir loc) : ∀ n ∈ dir, IsFileName n := by
  induction dir using List.reverseRecOn generalizing loc with
  | nil => simp
  | append_singleton dir name ih =>
    obtain ⟨⟨around, lists, entry⟩, -⟩ := h.of_concat
    exact isFileName_concat (ih lists) entry

theorem Meets.isFileName (h : s.Meets rel) : ∀ n ∈ rel, IsFileName n := by
  obtain ⟨dir, name, around, rfl, lists, entry⟩ := h
  exact isFileName_concat lists.isFileName entry

theorem Comes.isFileName (h : s.Comes rel) : ∀ n ∈ rel, IsFileName n := by
  obtain rfl | meets := h
  · simp
  · exact meets.isFileName

section
variable (free : s.tree.LinkFree) (root : s.find [] = .ok (.directory top))
include free root

/-- What is found below the root is where its names say. -/
theorem loc_of_find {found : Found} (names : ∀ n ∈ rel, IsFileName n)
    (h : s.find rel = .ok found) : found.loc = rel.reverse ++ top :=
  FileTree.eq_of_resolve_below free names (FileTree.resolve_of_find root)
    (FileTree.ne_empty_of_find root) (FileTree.resolve_of_find h)

/-- A directory is listed where its names say. -/
theorem Lists.eq_reverse (h : s.Lists dir loc) : loc = dir.reverse ++ top :=
  loc_of_find free root h.isFileName h.find_eq

/-- A directory that can be walked is listed, under the path that leads to it. -/
theorem lists_of_isOpen (names : ∀ n ∈ dir, IsFileName n) (isOpen : s.IsOpen dir)
    (here : s.find dir = .ok (.directory (dir.reverse ++ top))) :
    s.Lists dir (dir.reverse ++ top) := by
  induction dir using List.reverseRecOn with
  | nil => exact lists_root root
  | append_singleton dir last ih =>
    obtain ⟨around, kept⟩ := isOpen_concat_iff.1 isOpen
    obtain ⟨resolved, place⟩ := FileTree.find_eq_directory_iff.1 here
    have outer := FileTree.find_below_of_resolve free names root
      (FileTree.ne_empty_of_find root) resolved
    have lists := ih (fun n h => names n (List.mem_append_left _ h)) around outer
    have entry : last ∈ s.tree.children (dir.reverse ++ top) := by
      rw [List.reverse_concat, List.cons_append] at place
      exact FileTree.mem_children_iff.2 (by simp [place])
    -- the path under which the directory is listed has the same names
    obtain ⟨rel, listed⟩ := (meets_concat_iff.2 ⟨_, lists, entry⟩).exists_lists kept here
    have same := listed.eq_reverse free root
    rw [List.append_cancel_right_eq, List.reverse_inj] at same
    rw [← same] at listed
    exact listed

/-- No entry leads back to the way to it. -/
theorem errors_walk_eq_nil : s.walk.errors = [] := by
  rw [List.eq_nil_iff_forall_not_mem]
  rintro ⟨rel, fault⟩ told
  obtain ⟨rfl, meets⟩ := cycle_of_mem_errors root told
  obtain ⟨-, -, way, start, proper, ⟨loc, found, here⟩, -⟩ := cycle_mem_errors_walk_iff.1 told
  have names := meets.isFileName
  have place : loc = rel.reverse ++ top := loc_of_find free root names here
  have place' : loc = way.reverse ++ top :=
    loc_of_find free root (fun n mem => names n (start.subset mem)) found
  rw [place, List.append_cancel_right_eq, List.reverse_inj] at place'
  exact proper place'.symm

/-- **The files of a walk** in a tree without links. -/
theorem mem_files_walk_iff_isOpen : rel ∈ s.walk.files ↔
    (∃ bytes, s.find rel = .ok (.file (rel.reverse ++ top) bytes)) ∧
      (∀ way, way <+: rel → way ≠ [] → way ≠ rel → s.ignores way true = false) ∧
      s.ignores rel false = false ∧ s.selects rel = true := by
  constructor
  · intro listed
    obtain ⟨meets, ⟨loc, bytes, found⟩, kept, selected⟩ := mem_files_walk_iff.1 listed
    obtain rfl : loc = rel.reverse ++ top :=
      loc_of_find free root meets.isFileName found
    refine ⟨⟨bytes, found⟩, fun way start some proper => ?_, kept, selected⟩
    obtain ⟨dir, name, around, rfl, lists, -⟩ := meets
    exact lists.isOpen way ((List.prefix_concat_iff.1 start).resolve_left proper) some
  · rintro ⟨⟨bytes, found⟩, around, kept, selected⟩
    obtain ⟨resolved, file⟩ := FileTree.find_eq_file_iff.1 found
    obtain rfl | ⟨dir, name, rfl⟩ := List.eq_nil_or_concat' rel
    · cases root.symm.trans found
    have place : s.tree.get? (name :: (dir.reverse ++ top)) = some (.file bytes) := by
      simpa using file
    have names : ∀ n ∈ dir ++ [name], IsFileName n := by
      intro n mem
      refine FileTree.isFileName_of_mem file n (List.mem_append_left _ ?_)
      rwa [List.mem_reverse]
    have isOpen : s.IsOpen dir := by
      intro way start some
      refine around way (start.trans (List.prefix_append ..)) some fun same => ?_
      have short := start.length_le
      rw [same, List.length_append, List.length_singleton] at short
      omega
    have outer := FileTree.find_below_of_resolve free names root
      (FileTree.ne_empty_of_find root) resolved
    have lists := lists_of_isOpen free root
      (fun n h => names n (List.mem_append_left _ h)) isOpen outer
    have entry : name ∈ s.tree.children (dir.reverse ++ top) :=
      FileTree.mem_children_iff.2 (by simp [place])
    exact mem_files_walk_iff.2
      ⟨meets_concat_iff.2 ⟨_, lists, entry⟩, ⟨_, bytes, found⟩, kept, selected⟩

end

end Scope

/-- The rules hide an entry of a root. -/
def hides (root : String) (rules : List Glob.IgnoreRule) (rel : RelPath) (isDirectory : Bool) :
    Bool :=
  Glob.ignores rules (ignoreText root rel).toUTF8.toList isDirectory

/-- A file that a discovery is to find. -/
structure IsSelected (t : FileTree) (root : String) (top : Location) (includes : Glob.Selection)
    (fileRules excludes : List Glob.IgnoreRule) (rel : RelPath) : Prop where
  /-- The path names a file below the root. -/
  file : ∃ bytes, t.find (below root rel) = .ok (.file (rel.reverse ++ top) bytes)
  /-- No directory between the root and the file is hidden by the one rules or the other. -/
  reached : ∀ way, way <+: rel → way ≠ [] → way ≠ rel →
    hides root fileRules way true = false ∧ hides root excludes way true = false
  /-- The file is hidden by neither. -/
  shown : hides root fileRules rel false = false ∧ hides root excludes rel false = false
  /-- An include pattern matches its path below the root. -/
  included : includes.contains (below "" rel) = true

variable {t : FileTree} {root : String} {top : Location} {scan : ScanSettings}
  {includes : Glob.Selection} {excludes : List Glob.IgnoreRule} {rel : RelPath}

/-- The ignore file of the root, unless it is switched off. -/
def fileRulesOf (t : FileTree) (root : String) (scan : ScanSettings) : List Glob.IgnoreRule :=
  if scan.disableGitignore then [] else ignoreRulesAt t root

/-- An entry is ignored by the rules of the root or by those of the settings. -/
theorem ignores_scopeOf (t : FileTree) (root : String) (includes : Glob.Selection)
    (fileRules excludes : List Glob.IgnoreRule) (rel : RelPath) (isDirectory : Bool) :
    (scopeOf t root includes fileRules excludes).ignores rel isDirectory =
      (hides root fileRules rel isDirectory || hides root excludes rel isDirectory) := rfl

/-- The files of a walk by settings are those that are to be found. -/
theorem mem_files_walk_scopeOf_iff (free : t.LinkFree)
    (place : t.find root = .ok (.directory top)) {fileRules : List Glob.IgnoreRule} :
    rel ∈ (scopeOf t root includes fileRules excludes).walk.files ↔
      IsSelected t root top includes fileRules excludes rel := by
  rw [Scope.mem_files_walk_iff_isOpen (s := scopeOf t root includes fileRules excludes)
    free place]
  simp only [ignores_scopeOf, Bool.or_eq_false_iff]
  constructor
  · rintro ⟨file, reached, shown, included⟩
    exact ⟨file, reached, shown, included⟩
  · rintro ⟨file, reached, shown, included⟩
    exact ⟨file, reached, shown, included⟩

/-- The order of listing makes no difference to a discovery. -/
theorem discover_scopeOf_of_perm {t' : FileTree} (free : t.LinkFree)
    (place : t.find root = .ok (.directory top)) (perm : t'.entries.Perm t.entries)
    (home : t'.home = t.home) (refusals : t'.refusals = t.refusals) :
    (scopeOf t' root includes (fileRulesOf t' root scan) excludes).discover =
      (scopeOf t root includes (fileRulesOf t root scan) excludes).discover := by
  have find := FileTree.find_of_perm perm home
  have rules : fileRulesOf t' root scan = fileRulesOf t root scan := by
    simp only [fileRulesOf, ignoreRulesAt, FileTree.readBytes, FileTree.permit, find, refusals]
  have free' : t'.LinkFree := fun e mem => free e (perm.subset mem)
  have place' : t'.find root = .ok (.directory top) := (find root).trans place
  rw [rules]
  generalize fileRulesOf t root scan = fileRules
  have files : (scopeOf t' root includes fileRules excludes).discover.files =
      (scopeOf t root includes fileRules excludes).discover.files := by
    apply (Scope.pairwise_files_discover _).eq_of_mem_iff (Scope.pairwise_files_discover _)
    intro rel
    rw [mem_files_discover, mem_files_discover, mem_files_walk_scopeOf_iff free' place',
      mem_files_walk_scopeOf_iff free place]
    constructor
    · rintro ⟨file, reached, shown, included⟩
      exact ⟨by rwa [find] at file, reached, shown, included⟩
    · rintro ⟨file, reached, shown, included⟩
      exact ⟨by rwa [find], reached, shown, included⟩
  have errors : (scopeOf t' root includes fileRules excludes).walk.errors =
      (scopeOf t root includes fileRules excludes).walk.errors := by
    rw [Scope.errors_walk_eq_nil (s := scopeOf t' root includes fileRules excludes)
      free' place', Scope.errors_walk_eq_nil (s := scopeOf t root includes fileRules excludes)
      free place]
  exact congrArg₂ Discovery.mk files errors

/-- **A discovery selects exactly the right files** of a tree without links, without an error, in
the order of the components of their paths, and the same whatever the order of listing is. -/
theorem discover_selects (free : t.LinkFree)
    (place : t.find root = .ok (.directory top))
    (compiled : Glob.Selection.ofPatterns scan.includes = .ok includes)
    (read : Glob.rulesOfSettings scan.excludes = .ok excludes) :
    ∃ found, discover t root scan = .ok found ∧ found.errors = [] ∧
      (found.files.map fun rel => components (below root rel)).Pairwise (· < ·) ∧
      (∀ rel, rel ∈ found.files ↔
        IsSelected t root top includes (fileRulesOf t root scan) excludes rel) ∧
      ∀ t' : FileTree, t'.entries.Perm t.entries → t'.home = t.home → t'.refusals = t.refusals →
        discover t' root scan = .ok found := by
  have discovered : ∀ t', discover t' root scan =
      .ok (scopeOf t' root includes (fileRulesOf t' root scan) excludes).discover := by
    intro t'
    rw [discover, scope?, compiled, read]
    rfl
  refine ⟨_, discovered t, Scope.errors_walk_eq_nil free place, ?sorted, ?selected, ?order⟩
  case selected =>
    intro rel
    rw [mem_files_discover, mem_files_walk_scopeOf_iff free place]
  case sorted =>
    rw [List.pairwise_map]
    refine (Scope.pairwise_files_discover _).imp_of_mem fun {a b} mem mem' less => ?_
    have names : ∀ rel ∈ (scopeOf t root includes (fileRulesOf t root scan) excludes).discover.files,
        ∀ n ∈ rel, IsFileName n := fun rel mem =>
      (Scope.mem_files_walk_iff.1 (mem_files_discover.1 mem)).1.isFileName
    have some := FileTree.ne_empty_of_find place
    rw [components_below some (names a mem), components_below some (names b mem')]
    exact List.Lex.append_left _ less _
  case order =>
    intro t' perm home refusals
    rw [discovered t', discover_scopeOf_of_perm free place perm home refusals]

/-- A file in a directory that the ignore file hides, one at the root, and one of another kind. -/
def hiddenTree : FileTree where
  entries :=
    [(["src"], .directory), ([".gitignore", "src"], .file "old\n".toUTF8),
      (["old", "src"], .directory), (["a.rs", "old", "src"], .file "".toUTF8),
      (["notes", "src"], .file "".toUTF8), (["lib.rs", "src"], .file "".toUTF8)]

/-- A line of the settings does not bring the file in the hidden directory back. -/
theorem discover_selects_hiddenTree :
    let scan : ScanSettings := { excludes := ["!old/a.rs"] }
    ∃ top includes excludes, hiddenTree.find "src" = .ok (.directory top) ∧
      discover hiddenTree "src" scan = .ok ⟨[["lib.rs"]], []⟩ ∧
      ∀ rel, rel ∈ [["lib.rs"]] ↔ IsSelected hiddenTree "src" top includes
        (fileRulesOf hiddenTree "src" scan) excludes rel := by
  intro scan
  have free : hiddenTree.LinkFree := by decide
  have place : hiddenTree.find "src" = .ok (.directory ["src"]) := by rfl
  obtain ⟨includes, compiled⟩ : ∃ includes, Glob.Selection.ofPatterns scan.includes = .ok includes :=
    exists_of_isOk (by decide +kernel)
  obtain ⟨excludes, read⟩ : ∃ excludes, Glob.rulesOfSettings scan.excludes = .ok excludes :=
    exists_of_isOk (by decide +kernel)
  have walked : ((scope? hiddenTree "src" scan).map Scope.walk).toOption.map
      (fun w => (w.files, w.errors)) = some ([["lib.rs"]], []) := by
    decide +kernel
  have discovered := discover_eq_of_walk walked (by decide)
  obtain ⟨found, discovered', -, -, selected, -⟩ :=
    discover_selects free place compiled read
  cases discovered.symm.trans discovered'
  exact ⟨["src"], includes, excludes, place, discovered, selected⟩

end Expunge
