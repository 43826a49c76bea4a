import Expunge.Proofs.Files.Canonical
import Expunge.Scan.Walk

/-!
# How directories are told apart

Two paths to directories are taken for one directory if they lead to one place and the real path of
both can be asked for, and otherwise if they are the same (`key_eq_iff`). So directories in
different places are never mixed up, and where every directory has a real path none is taken for
two.
-/

namespace Expunge.Scope
set_option autoImplicit false
open Expunge.Path

variable {s : Scope} {rel rel' : RelPath} {loc loc' : Location}

/-- The real path of what the entry leads to can be asked for. -/
def HasRealPath (s : Scope) (rel : RelPath) : Prop :=
  ∃ loc, s.tree.canonicalize (below s.root rel) = .ok loc

theorem key_eq_real_iff : s.key rel = .real loc ↔
    s.tree.canonicalize (below s.root rel) = .ok loc := by
  unfold key
  split <;> simp_all

/-- Where the real path cannot be asked for, the path itself is the key. -/
theorem key_of_not_hasRealPath (h : ¬ s.HasRealPath rel) : s.key rel = .spelled rel := by
  unfold key
  split
  · rename_i loc real
    exact absurd ⟨loc, real⟩ h
  · rfl

/-- The real path of a directory is that of the place where it stands. -/
theorem key_of_hasRealPath (here : s.find rel = .ok (.directory loc)) (real : s.HasRealPath rel) :
    s.key rel = .real loc := by
  obtain ⟨loc', h⟩ := real
  obtain ⟨found, there, rfl, -⟩ := FileTree.canonicalize_eq_ok_iff.1 h
  obtain rfl : found = .directory loc := Except.ok.inj (there.symm.trans here)
  exact key_eq_real_iff.2 h

/-- Two paths lead to one directory. -/
def SamePlace (s : Scope) (rel rel' : RelPath) : Prop :=
  ∃ loc, s.find rel = .ok (.directory loc) ∧ s.find rel' = .ok (.directory loc)

/-- Two paths lead to one directory, and it can be told from them: they are the same, or both real
paths can be asked for. -/
def Identifies (s : Scope) (rel rel' : RelPath) : Prop :=
  s.SamePlace rel rel' ∧ (rel = rel' ∨ s.HasRealPath rel ∧ s.HasRealPath rel')

/-- **Which paths are taken for one directory.** -/
theorem key_eq_iff (here : s.find rel = .ok (.directory loc))
    (here' : s.find rel' = .ok (.directory loc')) :
    s.key rel = s.key rel' ↔ s.Identifies rel rel' := by
  constructor
  · intro same
    by_cases real : s.HasRealPath rel <;> by_cases real' : s.HasRealPath rel'
    · rw [key_of_hasRealPath here real, key_of_hasRealPath here' real'] at same
      cases same
      exact ⟨⟨loc, here, here'⟩, .inr ⟨real, real'⟩⟩
    · rw [key_of_hasRealPath here real, key_of_not_hasRealPath real'] at same
      cases same
    · rw [key_of_not_hasRealPath real, key_of_hasRealPath here' real'] at same
      cases same
    · rw [key_of_not_hasRealPath real, key_of_not_hasRealPath real'] at same
      cases same
      exact ⟨⟨loc, here, here⟩, .inl rfl⟩
  · rintro ⟨⟨place, there, there'⟩, rfl | ⟨real, real'⟩⟩
    · rfl
    · rw [key_of_hasRealPath there real, key_of_hasRealPath there' real']

theorem SamePlace.loc_eq (h : s.SamePlace rel rel') (here : s.find rel = .ok (.directory loc))
    (here' : s.find rel' = .ok (.directory loc')) : loc = loc' := by
  obtain ⟨place, there, there'⟩ := h
  cases here.symm.trans there
  cases here'.symm.trans there'
  rfl

/-- Directories that have real paths are told from every path to them. -/
theorem identifies_iff_samePlace
    (real : ∀ loc, s.find rel = .ok (.directory loc) → s.HasRealPath rel)
    (real' : ∀ loc, s.find rel' = .ok (.directory loc) → s.HasRealPath rel') :
    s.Identifies rel rel' ↔ s.SamePlace rel rel' := by
  refine ⟨And.left, fun same => ⟨same, .inr ?_⟩⟩
  obtain ⟨loc, here, here'⟩ := same
  exact ⟨real loc here, real' loc here'⟩

/-- In a tree of short paths every directory has a real path. -/
theorem hasRealPath_of_short (short : s.tree.IsShort) (here : s.find rel = .ok (.directory loc)) :
    s.HasRealPath rel :=
  ⟨loc, FileTree.canonicalize_of_short short here⟩

end Expunge.Scope
