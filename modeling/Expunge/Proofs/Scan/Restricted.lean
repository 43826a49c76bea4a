import Expunge.Proofs.Scan.Listed

/-!
# A walk that picks less

Two walks through one tree that find the same at what the first comes to, and leave out the same,
go in lockstep (`Step.restrict`): the directories, the cycles and the order are those of the first,
and of its files the second picks those that it selects (`walk_eq_restrict`).
-/

namespace Expunge
set_option autoImplicit false
open Expunge.Path Relation

variable {keep : RelPath → Bool}

/-- A state with those of its files alone that are to be kept. -/
def WalkState.restrict (keep : RelPath → Bool) (w : WalkState) : WalkState :=
  { w with files := w.files.filter keep }

/-- The same moment, with those of its files alone that are to be kept. -/
def Moment.restrict (keep : RelPath → Bool) (m : Moment) : Moment :=
  { m with state := m.state.restrict keep }

/-- A picked file is kept, or it is as if it had not been picked. -/
theorem WalkState.restrict_pick (w : WalkState) (rel : RelPath) : (w.pick rel).restrict keep =
    if keep rel then (w.restrict keep).pick rel else w.restrict keep := by
  by_cases kept : keep rel = true <;> simp [restrict, pick, List.filter_append, kept]

namespace Scope

variable {s s' : Scope} {rel : RelPath} {m m' : Moment}

/-- A scope, and one of the same tree that makes the same of every path the walk comes to, but that
selects only the files to be kept. -/
structure Restricts (keep : RelPath → Bool) (s s' : Scope) : Prop where
  tree : s'.tree = s.tree
  /-- The root is where it was. -/
  root : s'.find [] = s.find []
  /-- The entries that the walk meets lead where they did. -/
  find : ∀ rel, s.Meets rel → ∀ found, s'.find rel = .ok found ↔ s.find rel = .ok found
  /-- The directories that the walk comes to are told apart as they were. -/
  key : ∀ rel loc, s.Comes rel → s.find rel = .ok (.directory loc) → s'.key rel = s.key rel
  ignores : s'.ignores = s.ignores
  selects : ∀ rel, s'.selects rel = (s.selects rel && keep rel)

namespace Restricts

variable (h : Restricts keep s s')
include h

/-- What the walk is called for leads where it did. -/
theorem find_called {listings : List Listing} {ancestors : List DirectoryKey} {w : WalkState}
    (reached : s.Reaches ⟨some rel, listings, ancestors, w⟩) : s'.find rel = s.find rel := by
  cases reached.placed with
  | start => exact h.root
  | call _ meets into =>
    obtain ⟨loc, found⟩ := into.1
    exact ((h.find _ meets _).2 found).trans found.symm

theorem goesInto_iff (meets : s.Meets rel) : s'.GoesInto rel ↔ s.GoesInto rel := by
  simp only [GoesInto, h.find rel meets, h.ignores]

theorem picksFile_iff (meets : s.Meets rel) :
    s'.PicksFile rel ↔ s.PicksFile rel ∧ keep rel = true := by
  simp only [PicksFile, h.find rel meets, h.ignores, h.selects, Bool.and_eq_true, and_assoc]

/-- **The walks go in lockstep**: what the one does in a step the other does in a step. -/
theorem step (step : s.Step m m') (reached : s.Reaches m) :
    s'.Step (m.restrict keep) (m'.restrict keep) := by
  cases step with
  | refused blocked =>
    refine .refused ?_
    rw [refusal?, h.find_called reached]
    exact blocked
  | cycle here around =>
    rw [← h.key _ _ reached.comes here] at around
    exact .cycle ((h.find_called reached).trans here) around
  | seen here fresh seen =>
    rw [← h.key _ _ reached.comes here] at fresh seen
    exact .seen ((h.find_called reached).trans here) fresh seen
  | list here fresh unseen =>
    rw [← h.key _ _ reached.comes here] at fresh unseen ⊢
    rw [Moment.restrict, Moment.restrict, ← h.tree]
    exact .list ((h.find_called reached).trans here) fresh unseen
  | descend into =>
    cases reached.placed with
    | listing stack => exact .descend ((h.goesInto_iff stack.meets).2 into)
  | @pick rel name _ _ _ _ picks =>
    cases reached.placed with
    | listing stack =>
      have stays := mt (h.goesInto_iff stack.meets).1 picks.not_goesInto
      rw [Moment.restrict, Moment.restrict, WalkState.restrict_pick]
      by_cases kept : keep (rel ++ [name]) = true
      · rw [if_pos kept]
        exact .pick ((h.picksFile_iff stack.meets).2 ⟨picks, kept⟩)
      · -- what is not to be kept is passed over
        rw [if_neg kept]
        exact .pass stays fun picks' => kept ((h.picksFile_iff stack.meets).1 picks').2
  | pass stays leaves =>
    cases reached.placed with
    | listing stack =>
      exact .pass (mt (h.goesInto_iff stack.meets).1 stays)
        fun picks => leaves ((h.picksFile_iff stack.meets).1 picks).1
  | leave => exact .leave

/-- Every moment of the one walk is one of the other. -/
theorem reaches (reached : s.Reaches m) : s'.Reaches (m.restrict keep) := by
  induction reached with
  | refl => exact .refl
  | tail reached step ih => exact ih.tail (h.step step reached)

/-- **The walk that selects less** lists the same directories, tells of the same errors and picks
those files of the other walk that are to be kept. -/
theorem walk_eq : s'.walk = s.walk.restrict keep := by
  have ends : s'.Steps ⟨none, [], [], s.walk.restrict keep⟩ s'.finish :=
    (h.reaches s.reaches_finish).steps_finish
  obtain same | ⟨next, step, -⟩ := ReflTransGen.cases_head ends
  · exact (congrArg Moment.state same).symm
  · cases step

end Restricts
end Scope
end Expunge
