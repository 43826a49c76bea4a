import Expunge.Scan.Discovery

/-!
# What a walk does at a directory

One equation for each case of a walk, and the rule that proves a property of every walk from these
cases (`walkDirectory_rule`): going down is the only recursion, and it leaves less room for longer
paths.
-/

namespace Expunge
set_option autoImplicit false
open Expunge.Path

namespace Scope

variable {s : Scope} {ancestors : List DirectoryKey} {rel : RelPath} {w : WalkState}
  {loc : Location} {cause : IoError}

/-- Why a path cannot be walked, if it leads to no directory. -/
def refusal? (s : Scope) (rel : RelPath) : Option IoError :=
  match s.find rel with
  | .error cause => some cause
  | .ok (.file ..) => some .notADirectory
  | .ok (.directory _) => none

theorem refusal?_eq_none_iff :
    s.refusal? rel = none ↔ ∃ loc, s.find rel = .ok (.directory loc) := by
  unfold refusal?
  split <;> simp_all

/-- What the walk does with an entry of the directory at `rel`. -/
def enter (s : Scope) (ancestors : List DirectoryKey) (rel : RelPath) (w : WalkState)
    (name : FileName) : WalkState :=
  match s.find (rel ++ [name]) with
  | .ok (.directory _) =>
    if s.ignores (rel ++ [name]) true then w else walkDirectory s ancestors (rel ++ [name]) w
  | .ok (.file ..) =>
    if !s.ignores (rel ++ [name]) false && s.selects (rel ++ [name]) then w.pick (rel ++ [name])
    else w
  | .error _ => w

/-! ### The cases of a walk -/

theorem walkDirectory_of_refused (refused : s.refusal? rel = some cause) :
    walkDirectory s ancestors rel w = w.fail rel (.io cause) := by
  unfold refusal? at refused
  rw [walkDirectory]
  split <;> simp_all

theorem walkDirectory_of_cycle (here : s.find rel = .ok (.directory loc))
    (around : s.key rel ∈ ancestors) : walkDirectory s ancestors rel w = w.fail rel .cycle := by
  rw [walkDirectory]
  split
  · simp_all
  · simp_all
  · rw [if_pos around]

theorem walkDirectory_of_visited (here : s.find rel = .ok (.directory loc))
    (fresh : s.key rel ∉ ancestors) (seen : s.key rel ∈ w.visited) :
    walkDirectory s ancestors rel w = w := by
  rw [walkDirectory]
  split
  · simp_all
  · simp_all
  · rw [if_neg fresh, if_pos seen]

/-- A directory that is met for the first time is listed. -/
theorem walkDirectory_of_fresh (here : s.find rel = .ok (.directory loc))
    (fresh : s.key rel ∉ ancestors) (unseen : s.key rel ∉ w.visited) :
    walkDirectory s ancestors rel w =
      (s.tree.children loc).foldl (s.enter (s.key rel :: ancestors) rel) (w.visit (s.key rel)) := by
  rw [walkDirectory]
  split
  · simp_all
  · simp_all
  · rename_i loc' here'
    obtain rfl : loc = loc' := by simpa [here] using here'
    rw [if_neg fresh, if_neg unseen]
    exact List.foldl_attach (f := s.enter (s.key rel :: ancestors) rel)

/-- **The rule of the walk**: what holds of the four cases, of a listing if it does of the walks
from its entries, holds of every walk. -/
theorem walkDirectory_rule (s : Scope)
    {motive : List DirectoryKey → RelPath → WalkState → WalkState → Prop}
    (refused : ∀ {ancestors rel w cause}, s.refusal? rel = some cause →
      motive ancestors rel w (w.fail rel (.io cause)))
    (cycle : ∀ {ancestors rel w loc}, s.find rel = .ok (.directory loc) → s.key rel ∈ ancestors →
      motive ancestors rel w (w.fail rel .cycle))
    (visited : ∀ {ancestors rel w loc}, s.find rel = .ok (.directory loc) →
      s.key rel ∉ ancestors → s.key rel ∈ w.visited → motive ancestors rel w w)
    (listed : ∀ {ancestors rel w loc}, s.find rel = .ok (.directory loc) →
      s.key rel ∉ ancestors → s.key rel ∉ w.visited →
      (∀ name ∈ s.tree.children loc, ∀ w, motive (s.key rel :: ancestors) (rel ++ [name]) w
        (walkDirectory s (s.key rel :: ancestors) (rel ++ [name]) w)) →
      motive ancestors rel w
        ((s.tree.children loc).foldl (s.enter (s.key rel :: ancestors) rel) (w.visit (s.key rel))))
    (ancestors : List DirectoryKey) (rel : RelPath) (w : WalkState) :
    motive ancestors rel w (walkDirectory s ancestors rel w) := by
  -- paths get longer on the way down, up to the length that can be asked for
  induction room : s.roomBelow rel using Nat.strongRecOn generalizing ancestors rel w with
  | ind room ih =>
    subst room
    cases blocked : s.refusal? rel with
    | some cause =>
      rw [walkDirectory_of_refused blocked]
      exact refused blocked
    | none =>
      obtain ⟨loc, here⟩ := refusal?_eq_none_iff.1 blocked
      by_cases around : s.key rel ∈ ancestors
      · rw [walkDirectory_of_cycle here around]
        exact cycle here around
      by_cases seen : s.key rel ∈ w.visited
      · rw [walkDirectory_of_visited here around seen]
        exact visited here around seen
      rw [walkDirectory_of_fresh here around seen]
      exact listed here around seen fun name mem w => ih _ (roomBelow_lt here mem) _ _ w rfl

end Scope
end Expunge
