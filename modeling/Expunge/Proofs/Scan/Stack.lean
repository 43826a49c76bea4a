import Expunge.Proofs.Scan.Walk
import Mathlib.Logic.Relation

/-!
# The walk step by step

A walk as a machine with a stack: it is called for a directory, the listings that are not at their
end wait in the stack, and what the directories on the way from the root are told by is pushed when
a listing starts and popped at its end. A call gives back the stack on which it was made, with what
the walk from there returns (`steps_walkDirectory`). So the machine computes the walk, and it always
stops.
-/

namespace Expunge
set_option autoImplicit false
open Expunge.Path Relation

/-- The listing of a directory, with the names that it has not come to. -/
structure Listing where
  rel : RelPath
  rest : List FileName

/-- A moment of a walk. -/
structure Moment where
  /-- The directory that the walk is called for, if it is. -/
  called : Option RelPath
  /-- The listings that are under way, the innermost first. -/
  listings : List Listing
  /-- What the directories on the way from the root are told by, the innermost first. -/
  ancestors : List DirectoryKey
  state : WalkState

/-- The walk is called for the root, and nothing was done. -/
def Moment.start : Moment := ⟨some [], [], [], {}⟩

namespace Scope

/-- The walk goes into the directory that the entry leads to. -/
def GoesInto (s : Scope) (rel : RelPath) : Prop :=
  (∃ loc, s.find rel = .ok (.directory loc)) ∧ s.ignores rel true = false

/-- The walk picks the file that the entry leads to. -/
def PicksFile (s : Scope) (rel : RelPath) : Prop :=
  (∃ loc bytes, s.find rel = .ok (.file loc bytes)) ∧ s.ignores rel false = false ∧
    s.selects rel = true

/-- A step of the walk. -/
inductive Step (s : Scope) : Moment → Moment → Prop
  /-- A call for what is no directory returns with an error. -/
  | refused {rel listings ancestors w cause} (refused : s.refusal? rel = some cause) :
    s.Step ⟨some rel, listings, ancestors, w⟩ ⟨none, listings, ancestors, w.fail rel (.io cause)⟩
  /-- A call for a directory on the way from the root returns with an error. -/
  | cycle {rel listings ancestors w loc} (here : s.find rel = .ok (.directory loc))
      (around : s.key rel ∈ ancestors) :
    s.Step ⟨some rel, listings, ancestors, w⟩ ⟨none, listings, ancestors, w.fail rel .cycle⟩
  /-- A call for another directory that was listed returns as it is. -/
  | seen {rel listings ancestors w loc} (here : s.find rel = .ok (.directory loc))
      (fresh : s.key rel ∉ ancestors) (seen : s.key rel ∈ w.visited) :
    s.Step ⟨some rel, listings, ancestors, w⟩ ⟨none, listings, ancestors, w⟩
  /-- A directory that is new is listed, and it is one on the way from now on. -/
  | list {rel listings ancestors w loc} (here : s.find rel = .ok (.directory loc))
      (fresh : s.key rel ∉ ancestors) (unseen : s.key rel ∉ w.visited) :
    s.Step ⟨some rel, listings, ancestors, w⟩
      ⟨none, ⟨rel, s.tree.children loc⟩ :: listings, s.key rel :: ancestors, w.visit (s.key rel)⟩
  /-- A directory in the listing is called for. -/
  | descend {rel name rest listings ancestors w} (into : s.GoesInto (rel ++ [name])) :
    s.Step ⟨none, ⟨rel, name :: rest⟩ :: listings, ancestors, w⟩
      ⟨some (rel ++ [name]), ⟨rel, rest⟩ :: listings, ancestors, w⟩
  /-- A file in the listing is picked. -/
  | pick {rel name rest listings ancestors w} (picks : s.PicksFile (rel ++ [name])) :
    s.Step ⟨none, ⟨rel, name :: rest⟩ :: listings, ancestors, w⟩
      ⟨none, ⟨rel, rest⟩ :: listings, ancestors, w.pick (rel ++ [name])⟩
  /-- Any other name in the listing is passed over. -/
  | pass {rel name rest listings ancestors w} (stays : ¬ s.GoesInto (rel ++ [name]))
      (leaves : ¬ s.PicksFile (rel ++ [name])) :
    s.Step ⟨none, ⟨rel, name :: rest⟩ :: listings, ancestors, w⟩
      ⟨none, ⟨rel, rest⟩ :: listings, ancestors, w⟩
  /-- At the end of a listing the directory is no longer on the way. -/
  | leave {rel listings ancestors w} :
    s.Step ⟨none, ⟨rel, []⟩ :: listings, ancestors, w⟩ ⟨none, listings, ancestors.tail, w⟩

/-- A number of steps of the walk. -/
abbrev Steps (s : Scope) : Moment → Moment → Prop := ReflTransGen s.Step

/-- The walk comes to a moment. -/
abbrev Reaches (s : Scope) : Moment → Prop := s.Steps Moment.start

variable {s : Scope} {ancestors : List DirectoryKey} {rel : RelPath} {w : WalkState} {name : FileName}
  {loc : Location} {listings : List Listing} {m m' m'' : Moment}

theorem PicksFile.not_goesInto (h : s.PicksFile rel) : ¬ s.GoesInto rel := by
  obtain ⟨⟨loc, bytes, file⟩, -⟩ := h
  rintro ⟨⟨loc', directory⟩, -⟩
  rw [file] at directory
  cases directory

/-- What the walk does next is determined. -/
theorem step_rightUnique (s : Scope) : Relator.RightUnique s.Step := by
  intro m m' m'' h h'
  cases h with
  -- a call: what is found at the path, and where it was met, admit one answer
  | refused blocked => cases h' <;> simp_all [refusal?]
  | cycle here around => cases h' <;> simp_all [refusal?]
  | seen here fresh seen => cases h' <;> simp_all [refusal?]
  | list here fresh unseen => cases h' <;> simp_all [refusal?]
  -- a listing: its next name is a directory to go into, a file to pick, or neither
  | descend into =>
    cases h' with
    | descend => rfl
    | pick picks => exact absurd into picks.not_goesInto
    | pass stays => exact absurd into stays
  | pick picks =>
    cases h' with
    | descend into => exact absurd into picks.not_goesInto
    | pick => rfl
    | pass _ leaves => exact absurd picks leaves
  | pass stays leaves =>
    cases h' with
    | descend into => exact absurd into stays
    | pick picks => exact absurd picks leaves
    | pass => rfl
  | leave => cases h' with | leave => rfl

/-! ### A call returns -/

theorem enter_of_goesInto (into : s.GoesInto (rel ++ [name])) :
    s.enter ancestors rel w name = walkDirectory s ancestors (rel ++ [name]) w := by
  obtain ⟨⟨loc, found⟩, kept⟩ := into
  simp [enter, found, kept]

theorem enter_of_picksFile (picks : s.PicksFile (rel ++ [name])) :
    s.enter ancestors rel w name = w.pick (rel ++ [name]) := by
  obtain ⟨⟨loc, bytes, found⟩, kept, selected⟩ := picks
  simp [enter, found, kept, selected]

theorem enter_of_passed (stays : ¬ s.GoesInto (rel ++ [name]))
    (leaves : ¬ s.PicksFile (rel ++ [name])) : s.enter ancestors rel w name = w := by
  unfold enter
  split
  · rename_i l found
    exact if_pos (eq_true_of_ne_false fun kept => stays ⟨⟨l, found⟩, kept⟩)
  · rename_i l bytes found
    refine if_neg fun picked => leaves ⟨⟨l, bytes, found⟩, by simpa using picked⟩
  · rfl

/-- A listing does with its next name what the walk does with it, if calls for it return. -/
theorem steps_enter
    (down : ∀ listings, s.Steps ⟨some (rel ++ [name]), listings, ancestors, w⟩
      ⟨none, listings, ancestors, walkDirectory s ancestors (rel ++ [name]) w⟩)
    (rest : List FileName) (listings : List Listing) :
    s.Steps ⟨none, ⟨rel, name :: rest⟩ :: listings, ancestors, w⟩
      ⟨none, ⟨rel, rest⟩ :: listings, ancestors, s.enter ancestors rel w name⟩ := by
  by_cases into : s.GoesInto (rel ++ [name])
  · rw [enter_of_goesInto into]
    exact .head (.descend into) (down _)
  by_cases picks : s.PicksFile (rel ++ [name])
  · rw [enter_of_picksFile picks]
    exact .single (.pick picks)
  · rw [enter_of_passed into picks]
    exact .single (.pass into picks)

/-- **A call returns**, on the stack on which it was made, with what the walk from there returns. -/
theorem steps_walkDirectory (s : Scope) (ancestors : List DirectoryKey) (rel : RelPath)
    (w : WalkState) (listings : List Listing) :
    s.Steps ⟨some rel, listings, ancestors, w⟩
      ⟨none, listings, ancestors, walkDirectory s ancestors rel w⟩ := by
  refine s.walkDirectory_rule (motive := fun ancestors rel w w' => ∀ listings,
    s.Steps ⟨some rel, listings, ancestors, w⟩ ⟨none, listings, ancestors, w'⟩)
    ?refused ?cycle ?visited ?listed ancestors rel w listings
  case refused => exact fun refused _ => .single (.refused refused)
  case cycle => exact fun here around _ => .single (.cycle here around)
  case visited => exact fun here fresh seen _ => .single (.seen here fresh seen)
  case listed =>
    intro ancestors rel w loc here fresh unseen down listings
    have names : ∀ names ⊆ s.tree.children loc, ∀ w,
        s.Steps ⟨none, ⟨rel, names⟩ :: listings, s.key rel :: ancestors, w⟩
          ⟨none, ⟨rel, []⟩ :: listings, s.key rel :: ancestors,
            names.foldl (s.enter (s.key rel :: ancestors) rel) w⟩ := by
      intro names
      induction names with
      | nil => exact fun _ _ => .refl
      | cons name names ih =>
        intro part w
        obtain ⟨mem, part⟩ := List.cons_subset.1 part
        exact (steps_enter (down name mem w) names listings).trans (ih part _)
    exact .head (.list here fresh unseen) ((names _ (List.Subset.refl _) _).tail .leave)

/-- A listing comes to each of its names. -/
theorem steps_foldl (s : Scope) (rel : RelPath) (names rest : List FileName)
    (listings : List Listing) (ancestors : List DirectoryKey) (w : WalkState) :
    s.Steps ⟨none, ⟨rel, names ++ rest⟩ :: listings, ancestors, w⟩
      ⟨none, ⟨rel, rest⟩ :: listings, ancestors, names.foldl (s.enter ancestors rel) w⟩ := by
  induction names generalizing w with
  | nil => exact .refl
  | cons name names ih =>
    exact (steps_enter (s.steps_walkDirectory ancestors (rel ++ [name]) w) _ listings).trans (ih _)

/-- The walk is over, with the result of the running definition. -/
def finish (s : Scope) : Moment := ⟨none, [], [], s.walk⟩

/-- Nothing is done after the end. -/
theorem not_step_finish (s : Scope) (m : Moment) : ¬ s.Step s.finish m := by
  unfold finish
  intro h
  cases h

/-- **The walk comes to its end** from every moment that it reaches. -/
theorem Reaches.steps_finish (h : s.Reaches m) : s.Steps m s.finish := by
  have ends : s.Reaches s.finish := s.steps_walkDirectory [] [] {} []
  rcases ReflTransGen.total_of_right_unique s.step_rightUnique h ends with later | earlier
  · exact later
  · obtain same | ⟨next, step, -⟩ := ReflTransGen.cases_head earlier
    · rw [same]
    · exact absurd step (s.not_step_finish next)

/-- **The walk has no endless run** from a moment that it reaches. -/
theorem Reaches.acc (h : s.Reaches m) : Acc (fun m' m => s.Step m m') m := by
  have ends := h.steps_finish
  clear h
  induction ends using ReflTransGen.head_induction_on with
  | refl => exact ⟨_, fun m step => absurd step (s.not_step_finish m)⟩
  | head step _ ih => exact ⟨_, fun m step' => s.step_rightUnique step step' ▸ ih⟩

end Scope
end Expunge
