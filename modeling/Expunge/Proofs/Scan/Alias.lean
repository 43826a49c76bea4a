import Expunge.Proofs.Files.Linked
import Expunge.Proofs.Scan.Selected

/-!
# A new link in a tree

A link to a directory gives the directory another path. A walk that meets it first lists the
directory under that path and no other, and the patterns are matched against the paths below it. So
the files of the tree before are found again if what becomes of an entry does not hang on the path
to its directory (`discover_keeps_files`), and they may be hidden if it does
(`discover_hides_behind_link`).
-/

namespace Expunge
set_option autoImplicit false
open Expunge.Path

namespace Scope

/-- Two scopes make the same of an entry, each under its own path. -/
structure SameEntry (s s' : Scope) (rel rel' : RelPath) : Prop where
  find : s'.find rel' = s.find rel
  ignores : ∀ isDirectory, s'.ignores rel' isDirectory = s.ignores rel isDirectory
  selects : s'.selects rel' = s.selects rel

/-- Where the walks of both scopes list a directory, under whatever paths they reach it, they make
the same of its entries. -/
def Agree (s s' : Scope) : Prop :=
  ∀ dir dir' loc name, s.Lists dir loc → s'.Lists dir' loc → name ∈ s.tree.children loc →
    SameEntry s s' (dir ++ [name]) (dir' ++ [name])

variable {s s' : Scope} {rel rel' dir dir' : RelPath} {loc : Location}

theorem SameEntry.picksFile (same : SameEntry s s' rel rel') (h : s.PicksFile rel) :
    s'.PicksFile rel' := by
  obtain ⟨⟨loc, bytes, found⟩, kept, selected⟩ := h
  exact ⟨⟨loc, bytes, same.find.trans found⟩, (same.ignores false).trans kept,
    same.selects.trans selected⟩

section
variable (agree : s.Agree s')
  (more : ∀ loc name, name ∈ s.tree.children loc → name ∈ s'.tree.children loc)
include agree more

/-- An entry of a directory that both walks list is met by the other walk, and is the same to it. -/
theorem Lists.meets_of_agree {name : FileName} (lists : s.Lists dir loc)
    (lists' : s'.Lists dir' loc) (entry : name ∈ s.tree.children loc) :
    s'.Meets (dir' ++ [name]) ∧ SameEntry s s' (dir ++ [name]) (dir' ++ [name]) :=
  ⟨meets_concat_iff.2 ⟨loc, lists', more loc name entry⟩,
    agree dir dir' loc name lists lists' entry⟩

variable (root : ∀ loc, s.find [] = .ok (.directory loc) → s'.find [] = .ok (.directory loc))
include root

/-- What the one walk lists the other lists too, in whatever order it gets there. -/
theorem Lists.exists_of_agree (h : s.Lists dir loc) : ∃ dir', s'.Lists dir' loc := by
  induction dir using List.reverseRecOn generalizing loc with
  | nil => exact ⟨[], lists_root (root loc h.find_eq)⟩
  | append_singleton dir name ih =>
    obtain ⟨⟨around, lists, entry⟩, kept⟩ := h.of_concat
    obtain ⟨dir', lists'⟩ := ih lists
    obtain ⟨meets, same⟩ := lists.meets_of_agree agree more lists' entry
    -- the other walk may have listed the directory before, under another path
    exact meets.exists_lists ((same.ignores true).trans kept) (same.find.trans h.find_eq)

/-- What the one walk picks the other picks too. -/
theorem exists_mem_files_of_agree (h : rel ∈ s.walk.files) :
    ∃ rel' ∈ s'.walk.files, s'.find rel' = s.find rel := by
  obtain ⟨⟨dir, name, around, rfl, lists, entry⟩, picks⟩ := mem_files_walk_iff.1 h
  obtain ⟨dir', lists'⟩ := lists.exists_of_agree agree more root
  obtain ⟨meets, same⟩ := lists.meets_of_agree agree more lists' entry
  exact ⟨dir' ++ [name], mem_files_walk_iff.2 ⟨meets, same.picksFile picks⟩, same.find⟩

end

end Scope

variable {t t' : FileTree} {root target : String} {scan : ScanSettings} {s s' : Scope}
  {link : Location}

/-- **A new link hides no file** that was found before, if the walks agree: the directories that
both list hold entries of which both make the same, whichever path a walk takes to them. -/
theorem discover_keeps_files (added : t'.entries.Perm ((link, .link target) :: t.entries))
    (home : t'.home = t.home) (made : scope? t root scan = .ok s)
    (made' : scope? t' root scan = .ok s') (agree : s.Agree s') :
    ∃ found found', discover t root scan = .ok found ∧ discover t' root scan = .ok found' ∧
      ∀ rel ∈ found.files, ∀ loc bytes, t.find (below root rel) = .ok (.file loc bytes) →
        ∃ rel' ∈ found'.files, t'.find (below root rel') = .ok (.file loc bytes) := by
  obtain ⟨rfl, rfl⟩ := tree_of_scope? made
  obtain ⟨rfl, same⟩ := tree_of_scope? made'
  have part : ∀ loc e, s.tree.get? loc = some e → s'.tree.get? loc = some e := by
    intro loc e here
    cases loc with
    | nil => exact here
    | cons name dir =>
      rw [FileTree.get?_eq_some_iff] at here ⊢
      exact added.mem_iff.2 (List.mem_cons_of_mem _ here)
  have more : ∀ loc name, name ∈ s.tree.children loc → name ∈ s'.tree.children loc := by
    intro loc name entry
    rw [FileTree.mem_children_iff, Option.ne_none_iff_exists'] at entry ⊢
    obtain ⟨e, here⟩ := entry
    exact ⟨e, part _ e here⟩
  have top : ∀ loc, s.find [] = .ok (.directory loc) → s'.find [] = .ok (.directory loc) := by
    intro loc here
    rw [Scope.find, same]
    exact FileTree.find_of_part here home part
  refine ⟨s.discover, s'.discover, by rw [discover, made]; rfl, by rw [discover, made']; rfl, ?_⟩
  intro rel listed loc bytes file
  obtain ⟨rel', listed', found⟩ :=
    Scope.exists_mem_files_of_agree agree more top (mem_files_discover.1 listed)
  refine ⟨rel', mem_files_discover.2 listed', ?_⟩
  rw [← same]
  exact found.trans file

/-- A directory with a file. -/
def plainTree : FileTree where
  entries := [(["src"], .directory), (["d", "src"], .directory),
    (["f.rs", "d", "src"], .file "".toUTF8)]

/-- The same tree with another name for the directory, that is listed first. -/
def aliasTree : FileTree where
  entries := [(["src"], .directory), (["hub", "src"], .link "d"), (["d", "src"], .directory),
    (["f.rs", "d", "src"], .file "".toUTF8)]

/-- Where all that the root holds leads to one directory, which holds files alone, nothing else is
listed. -/
theorem eq_root_or_of_lists {includes : Glob.Selection} {fileRules excludes : List Glob.IgnoreRule}
    {dir : RelPath} {loc top inner : Location}
    (h : (scopeOf t root includes fileRules excludes).Lists dir loc)
    (place : (t.find root).toOption.map Found.loc = some top)
    (names : ∀ n ∈ t.children top, (t.find (below root [n])).toOption.map Found.loc = some inner)
    (leaves : ∀ n ∈ t.children top, ∀ name ∈ t.children inner,
      t.isDirectory (below root [n, name]) = false) :
    (dir = [] ∧ loc = top) ∨ ((∃ n ∈ t.children top, dir = [n]) ∧ loc = inner) := by
  induction dir using List.reverseRecOn generalizing loc with
  | nil =>
    have here : t.find root = .ok (.directory loc) := h.find_eq
    rw [here] at place
    exact .inl ⟨rfl, Option.some.inj place⟩
  | append_singleton dir name ih =>
    obtain ⟨⟨around, lists, entry⟩, -⟩ := h.of_concat
    have here : t.find (below root (dir ++ [name])) = .ok (.directory loc) := h.find_eq
    rcases ih lists with ⟨rfl, rfl⟩ | ⟨⟨n, outer, rfl⟩, rfl⟩
    · have one := names name entry
      rw [List.nil_append] at here
      rw [here] at one
      exact .inr ⟨⟨name, entry, rfl⟩, Option.some.inj one⟩
    · have leaf := leaves n outer name entry
      rw [FileTree.isDirectory, show [n, name] = [n] ++ [name] from rfl, here] at leaf
      cases leaf

/-- The walks of both trees make the same of the directory and of its file. -/
theorem agree_aliasTree {includes : Glob.Selection}
    (taken : ∀ n ∈ ["hub", "d"], includes.contains (below "" [n, "f.rs"]) = true) :
    (scopeOf plainTree "src" includes [] []).Agree (scopeOf aliasTree "src" includes [] []) := by
  intro dir dir' loc name lists lists' entry
  have listed : (dir = [] ∧ loc = ["src"]) ∨
      ((∃ n ∈ plainTree.children ["src"], dir = [n]) ∧ loc = ["d", "src"]) :=
    eq_root_or_of_lists lists (by decide +kernel) (by decide +kernel) (by decide +kernel)
  have listed' : (dir' = [] ∧ loc = ["src"]) ∨
      ((∃ n ∈ aliasTree.children ["src"], dir' = [n]) ∧ loc = ["d", "src"]) :=
    eq_root_or_of_lists lists' (by decide +kernel) (by decide +kernel) (by decide +kernel)
  have entry : name ∈ plainTree.children loc := entry
  rw [show plainTree.children ["src"] = ["d"] from by decide] at listed
  rw [show aliasTree.children ["src"] = ["hub", "d"] from by decide] at listed'
  rcases listed with ⟨rfl, rfl⟩ | ⟨⟨n, outer, rfl⟩, rfl⟩
  · obtain ⟨rfl, -⟩ := listed'.resolve_right (by simp)
    rw [show plainTree.children ["src"] = ["d"] from by decide, List.mem_singleton] at entry
    subst entry
    constructor
    · show aliasTree.find (below "src" ["d"]) = plainTree.find (below "src" ["d"])
      have place : ∀ t ∈ [plainTree, aliasTree],
          (t.find (below "src" ["d"])).toOption.map Found.loc = some ["d", "src"] := by
        decide +kernel
      exact FileTree.find_eq_find (place plainTree (by simp)) (place aliasTree (by simp))
        (by decide)
    · intro isDirectory
      rw [ignores_scopeOf, ignores_scopeOf]
    · rfl
  · obtain ⟨⟨n', outer', rfl⟩, -⟩ := listed'.resolve_left (by simp)
    rw [show plainTree.children ["d", "src"] = ["f.rs"] from by decide, List.mem_singleton] at entry
    obtain rfl := List.mem_singleton.1 outer
    subst entry
    constructor
    · show aliasTree.find (below "src" [n', "f.rs"]) = plainTree.find (below "src" ["d", "f.rs"])
      have place : (plainTree.find (below "src" ["d", "f.rs"])).toOption.map Found.loc =
          some ["f.rs", "d", "src"] := by
        decide +kernel
      have place' : ∀ n ∈ ["hub", "d"],
          (aliasTree.find (below "src" [n, "f.rs"])).toOption.map Found.loc =
            some ["f.rs", "d", "src"] := by
        decide +kernel
      exact FileTree.find_eq_find place (place' n' outer') (by decide)
    · intro isDirectory
      simp [ignores_scopeOf, hides]
    · show includes.contains (below "" [n', "f.rs"]) = includes.contains (below "" ["d", "f.rs"])
      rw [taken n' outer', taken "d" (by simp)]

/-- Patterns that look at the names of files take the file under its other path. -/
theorem discover_keeps_files_aliasTree :
    ∃ found found', discover plainTree "src" {} = .ok found ∧
      discover aliasTree "src" {} = .ok found' ∧
      ∀ rel ∈ found.files, ∀ loc bytes,
        plainTree.find (below "src" rel) = .ok (.file loc bytes) →
        ∃ rel' ∈ found'.files, aliasTree.find (below "src" rel') = .ok (.file loc bytes) := by
  have added : aliasTree.entries.Perm ((["hub", "src"], .link "d") :: plainTree.entries) := by
    decide
  obtain ⟨includes, compiled⟩ :
      ∃ includes, Glob.Selection.ofPatterns ({} : ScanSettings).includes = .ok includes :=
    exists_of_isOk (by decide +kernel)
  have taken : ∀ n ∈ ["hub", "d"], includes.contains (below "" [n, "f.rs"]) = true := by
    have all : (Glob.Selection.ofPatterns ({} : ScanSettings).includes).toOption.all
        (fun sel => ["hub", "d"].all fun n => sel.contains (below "" [n, "f.rs"])) = true := by
      decide +kernel
    rw [compiled] at all
    exact List.all_eq_true.1 all
  have made : ∀ t ∈ [plainTree, aliasTree],
      scope? t "src" {} = .ok (scopeOf t "src" includes [] []) := by
    intro t mem
    have none : ∀ t ∈ [plainTree, aliasTree], (ignoreRulesAt t "src").isEmpty = true := by
      decide +kernel
    rw [scope?, compiled]
    simp [List.isEmpty_iff.1 (none t mem)]
    rfl
  exact discover_keeps_files added rfl (made plainTree (by simp)) (made aliasTree (by simp))
    (agree_aliasTree taken)

/-- A pattern with the name of a directory does not match its other path: the file is hidden. -/
theorem discover_hides_behind_link :
    aliasTree.entries.Perm ((["hub", "src"], .link "d") :: plainTree.entries) ∧
      aliasTree.find "src/hub" = .ok (.directory ["d", "src"]) ∧
      discover plainTree "src" { includes := ["d/*.rs"] } = .ok ⟨[["d", "f.rs"]], []⟩ ∧
      discover aliasTree "src" { includes := ["d/*.rs"] } = .ok ⟨[], []⟩ := by
  have walked : ((scope? plainTree "src" { includes := ["d/*.rs"] }).map Scope.walk).toOption.map
      (fun w => (w.files, w.errors)) = some ([["d", "f.rs"]], []) := by
    decide +kernel
  have walked' : ((scope? aliasTree "src" { includes := ["d/*.rs"] }).map Scope.walk).toOption.map
      (fun w => (w.files, w.errors)) = some ([], []) := by
    decide +kernel
  exact ⟨by decide, rfl, discover_eq_of_walk walked (by decide), discover_eq_of_walk walked' .nil⟩

end Expunge
