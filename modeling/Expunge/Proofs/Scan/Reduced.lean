import Expunge.Proofs.Files.Canonical
import Expunge.Proofs.Scan.Picks

/-!
# The walk through a reduced tree

Where files were changed or taken away, a walk goes into the same directories and meets the same
cycles, and it picks no file that was not picked before (`discover_reduced`).
-/

namespace Expunge
set_option autoImplicit false
open Expunge.Path

/-- A state of a walk, and one with the same directories and errors that has picked no more. -/
structure WalkState.Shadows (w w' : WalkState) : Prop where
  visited : w'.visited = w.visited
  errors : w'.errors = w.errors
  files : w'.files ⊆ w.files

namespace WalkState.Shadows

variable {w w' : WalkState}

theorem fail (h : w.Shadows w') (rel : RelPath) (fault : WalkFault) :
    (w.fail rel fault).Shadows (w'.fail rel fault) :=
  ⟨h.visited, congrArg (· ++ _) h.errors, h.files⟩

theorem visit (h : w.Shadows w') (key : DirectoryKey) : (w.visit key).Shadows (w'.visit key) :=
  ⟨congrArg (key :: ·) h.visited, h.errors, h.files⟩

theorem pick (h : w.Shadows w') (rel : RelPath) : (w.pick rel).Shadows (w'.pick rel) :=
  ⟨h.visited, h.errors, List.append_subset.2
    ⟨List.subset_append_of_subset_left _ h.files, List.subset_append_right _ _⟩⟩

/-- One more file is picked, and not in the reduced tree. -/
theorem pick_left (h : w.Shadows w') (rel : RelPath) : (w.pick rel).Shadows w' :=
  ⟨h.visited, h.errors, List.subset_append_of_subset_left _ h.files⟩

/-- A listing, and one that lacks some of its names. -/
theorem foldl {names names' : List FileName} {step step' : WalkState → FileName → WalkState}
    (part : names'.Sublist names) (nodup : names.Nodup)
    (both : ∀ name ∈ names', ∀ w w', w.Shadows w' → (step w name).Shadows (step' w' name))
    (gone : ∀ name ∈ names, name ∉ names' → ∀ w w', w.Shadows w' → (step w name).Shadows w')
    (h : w.Shadows w') : (names.foldl step w).Shadows (names'.foldl step' w') := by
  induction part generalizing w w' with
  | slnil => exact h
  | cons name part ih =>
    obtain ⟨new, nodup⟩ := List.nodup_cons.1 nodup
    have lacking := gone name (by simp) fun mem => new (part.subset mem)
    refine ih nodup both (fun n mem => gone n (by simp [mem])) (lacking w w' h)
  | cons_cons name part ih =>
    obtain ⟨new, nodup⟩ := List.nodup_cons.1 nodup
    refine ih nodup (fun n mem => both n (by simp [mem])) (fun n mem lacking => ?_)
      (both name (by simp) w w' h)
    refine gone n (by simp [mem]) fun mem' => ?_
    rcases List.mem_cons.1 mem' with rfl | mem'
    · exact new mem
    · exact lacking mem'

end WalkState.Shadows

namespace Scope

variable {s s' : Scope} {ancestors : List DirectoryKey} {rel : RelPath} {w w' : WalkState}
  {loc l : Location} {name : FileName}

/-- A scope, and one that differs in a reduced tree alone. -/
structure Reduces (s s' : Scope) : Prop where
  tree : s.tree.Reduces s'.tree
  root : s'.root = s.root
  selects : s'.selects = s.selects
  ignores : s'.ignores = s.ignores

namespace Reduces

theorem find_directory_iff (h : s.Reduces s') :
    s'.find rel = .ok (.directory loc) ↔ s.find rel = .ok (.directory loc) := by
  rw [find, find, h.root]
  exact h.tree.find_directory_iff

/-- Directories are told apart as before. -/
theorem key_eq (h : s.Reduces s') (here : s.find rel = .ok (.directory loc)) :
    s'.key rel = s.key rel := by
  rw [key, key, h.root, h.tree.canonicalize_eq here]

theorem exists_find (h : s.Reduces s') {bytes : ByteArray}
    (found : s'.find rel = .ok (.file loc bytes)) :
    ∃ bytes', s.find rel = .ok (.file loc bytes') := by
  rw [find, h.root] at found
  exact h.tree.exists_find found

theorem children_sublist (h : s.Reduces s') (dir : Location) :
    (s'.tree.children dir).Sublist (s.tree.children dir) := by
  rw [FileTree.children_eq, FileTree.children_eq]
  exact h.tree.listed.filterMap _

/-- A name that is gone from a directory did not lead to a directory. -/
theorem find_ne_directory (h : s.Reduces s') (here : s.find rel = .ok (.directory loc))
    (mem : name ∈ s.tree.children loc) (gone : name ∉ s'.tree.children loc) :
    s.find (rel ++ [name]) ≠ .ok (.directory l) := by
  intro found
  rw [FileTree.mem_children_iff] at mem gone
  obtain ⟨named, apart⟩ := h.tree.gone name loc mem (not_ne_iff.1 gone)
  have around := FileTree.resolve_of_find here
  obtain ⟨asked, -⟩ := FileTree.resolve_eq_taken_iff.1 around
  have some := (FileTree.checkPath_eq_ok_iff.1 asked).2.1
  rw [find, below_append, FileTree.find_eq_directory_iff] at found
  obtain ⟨dir, links, resolved, last⟩ := FileTree.exists_resolve_directory named some found.1
  obtain rfl : dir = loc := by simpa [resolved, Found.loc] using around
  exact apart links l last found.2

end Reduces

/-! ### Going through both -/

/-- What is no directory is picked at most. -/
theorem shadows_enter_left (noDirectory : ∀ l, s.find (rel ++ [name]) ≠ .ok (.directory l))
    (shadow : w.Shadows w') : (s.enter ancestors rel w name).Shadows w' := by
  rw [enter]
  split
  · rename_i found
    exact absurd found (noDirectory _)
  · split
    · exact shadow.pick_left _
    · exact shadow
  · exact shadow

/-- A name that is in both directories, if going into directories is as it should. -/
theorem shadows_enter (h : s.Reduces s') (shadow : w.Shadows w')
    (into : ∀ l, s.find (rel ++ [name]) = .ok (.directory l) →
      (walkDirectory s ancestors (rel ++ [name]) w).Shadows
        (walkDirectory s' ancestors (rel ++ [name]) w')) :
    (s.enter ancestors rel w name).Shadows (s'.enter ancestors rel w' name) := by
  by_cases directory : ∃ l, s.find (rel ++ [name]) = .ok (.directory l)
  · obtain ⟨l, found⟩ := directory
    have found' := h.find_directory_iff.2 found
    simp only [enter, found, found', h.ignores]
    split
    · exact shadow
    · exact into l found
  · have noDirectory : ∀ l, s.find (rel ++ [name]) ≠ .ok (.directory l) := not_exists.1 directory
    cases found' : s'.find (rel ++ [name]) with
    | error cause =>
      rw [show s'.enter ancestors rel w' name = w' by simp only [enter, found']]
      exact shadows_enter_left noDirectory shadow
    | ok place =>
      cases place with
      | directory l => exact absurd (h.find_directory_iff.1 found') (noDirectory l)
      | file l bytes =>
        obtain ⟨bytes', found⟩ := h.exists_find found'
        simp only [enter, found, found', h.ignores, h.selects]
        split
        · exact shadow.pick _
        · exact shadow

/-- The walk of a directory in a tree and in a reduced one. -/
theorem shadows_walkDirectory (h : s.Reduces s') (directory : s.refusal? rel = none)
    (shadow : w.Shadows w') :
    (walkDirectory s ancestors rel w).Shadows (walkDirectory s' ancestors rel w') := by
  refine s.walkDirectory_rule (motive := fun ancestors rel w after => ∀ {w'},
    s.refusal? rel = none → w.Shadows w' → after.Shadows (walkDirectory s' ancestors rel w'))
    ?refused ?cycle ?visited ?listed ancestors rel w directory shadow
  case refused =>
    intro ancestors rel w cause refused w' here
    simp [refused] at here
  case cycle =>
    intro ancestors rel w loc here cycle w' _ shadow
    rw [← h.key_eq here] at cycle
    rw [walkDirectory_of_cycle (h.find_directory_iff.2 here) cycle]
    exact shadow.fail rel .cycle
  case visited =>
    intro ancestors rel w loc here fresh seen w' _ shadow
    rw [← shadow.visited, ← h.key_eq here] at seen
    rw [← h.key_eq here] at fresh
    rw [walkDirectory_of_visited (h.find_directory_iff.2 here) fresh seen]
    exact shadow
  case listed =>
    intro ancestors rel w loc here fresh unseen down w' _ shadow
    have key := h.key_eq here
    rw [walkDirectory_of_fresh (h.find_directory_iff.2 here) (key ▸ fresh)
      (key ▸ shadow.visited ▸ unseen), key]
    refine WalkState.Shadows.foldl (h.children_sublist loc) (s.tree.nodup_children loc)
      (fun name mem w w' shadow => ?_) (fun name mem gone w w' shadow => ?_) (shadow.visit _)
    · have mem := (h.children_sublist loc).subset mem
      exact shadows_enter h shadow fun l found =>
        down name mem w (refusal?_eq_none_iff.2 ⟨l, found⟩) shadow
    · exact shadows_enter_left (fun l => h.find_ne_directory here mem gone) shadow

/-- The discovery in a reduced tree finds the same errors and no other files. -/
theorem discover_reduced (h : s.Reduces s') (here : s.find [] = .ok (.directory loc)) :
    s'.discover.files ⊆ s.discover.files ∧ s'.discover.errors = s.discover.errors := by
  have shadow : s.walk.Shadows s'.walk :=
    shadows_walkDirectory h (refusal?_eq_none_iff.2 ⟨loc, here⟩) ⟨rfl, rfl, List.Subset.refl _⟩
  refine ⟨fun rel mem => ?_, shadow.errors⟩
  rw [mem_files_discover] at mem ⊢
  exact shadow.files mem

end Scope
end Expunge
