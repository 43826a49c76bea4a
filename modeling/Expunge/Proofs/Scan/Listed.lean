import Expunge.Proofs.Scan.Keys
import Expunge.Proofs.Scan.Picks
import Expunge.Proofs.Scan.Stack

/-!
# What a walk lists, picks and tells of

A walk lists the root and every directory to which an entry of a listed directory leads, if it is
not ignored, and it comes to every entry of what it lists. A directory is listed again only under a
path from which it cannot be told (`ListsAt.unique`). The files are the entries that it picks
there (`mem_files_walk_iff`), and its errors, but for a root that is no directory, the entries that
lead back to the way from the root to them (`cycle_mem_errors_walk_iff`).
-/

namespace Expunge
set_option autoImplicit false
open Expunge.Path Relation

/-- Nothing of a state is lost in a later one. -/
structure WalkState.Grows (w w' : WalkState) : Prop where
  visited : w.visited ⊆ w'.visited
  files : w.files ⊆ w'.files
  errors : w.errors ⊆ w'.errors

namespace WalkState

variable {w w' w'' : WalkState}

theorem Grows.refl (w : WalkState) : w.Grows w :=
  ⟨List.Subset.refl _, List.Subset.refl _, List.Subset.refl _⟩

theorem Grows.trans (h : w.Grows w') (h' : w'.Grows w'') : w.Grows w'' :=
  ⟨List.Subset.trans h.visited h'.visited, List.Subset.trans h.files h'.files,
    List.Subset.trans h.errors h'.errors⟩

theorem grows_fail (w : WalkState) (rel : RelPath) (fault : WalkFault) : w.Grows (w.fail rel fault) :=
  ⟨List.Subset.refl _, List.Subset.refl _, List.subset_append_left ..⟩

theorem grows_visit (w : WalkState) (key : DirectoryKey) : w.Grows (w.visit key) :=
  ⟨List.subset_cons_self .., List.Subset.refl _, List.Subset.refl _⟩

theorem grows_pick (w : WalkState) (rel : RelPath) : w.Grows (w.pick rel) :=
  ⟨List.Subset.refl _, List.subset_append_left .., List.Subset.refl _⟩

end WalkState

/-- The directories on the way from the root are different, and all of them were listed. -/
structure Moment.Tidy (m : Moment) : Prop where
  nodup : m.ancestors.Nodup
  listed : m.ancestors ⊆ m.state.visited

namespace Scope

/-- The walk is called for a directory that it did not meet, and lists it. -/
structure ListsAt (s : Scope) (m : Moment) (rel : RelPath) (loc : Location) : Prop where
  reached : s.Reaches m
  called : m.called = some rel
  here : s.find rel = .ok (.directory loc)
  fresh : s.key rel ∉ m.ancestors
  unseen : s.key rel ∉ m.state.visited

/-- The walk lists the directory under the path. -/
def Lists (s : Scope) (rel : RelPath) (loc : Location) : Prop := ∃ m, s.ListsAt m rel loc

/-- The entry is one of a directory that the walk lists. -/
def Meets (s : Scope) (rel : RelPath) : Prop :=
  ∃ dir name loc, rel = dir ++ [name] ∧ s.Lists dir loc ∧ name ∈ s.tree.children loc

/-- The walk comes to the path: to the root, or to an entry of what it lists. -/
def Comes (s : Scope) (rel : RelPath) : Prop := rel = [] ∨ s.Meets rel

/-- The entry leads back to a directory on the way to it, and this can be told. -/
def LeadsBack (s : Scope) (rel : RelPath) : Prop :=
  ∃ way, way <+: rel ∧ way ≠ rel ∧ s.Identifies way rel

/-- The listings under way are those of the directories on the way from the root, and what is left
of each is a part of the directory. -/
inductive Stacked (s : Scope) : List Listing → List DirectoryKey → Prop
  | root {rest loc} (lists : s.Lists [] loc) (names : rest ⊆ s.tree.children loc) :
    s.Stacked [⟨[], rest⟩] [s.key []]
  | down {outer listings ancestors name rest loc} (stack : s.Stacked (outer :: listings) ancestors)
      (lists : s.Lists (outer.rel ++ [name]) loc) (names : rest ⊆ s.tree.children loc) :
    s.Stacked (⟨outer.rel ++ [name], rest⟩ :: outer :: listings)
      (s.key (outer.rel ++ [name]) :: ancestors)

/-- A moment is before, amid or after the listings, and calls are for entries of what is listed. -/
inductive Placed (s : Scope) : Moment → Prop
  | start {w} : s.Placed ⟨some [], [], [], w⟩
  | call {outer listings ancestors name w} (stack : s.Stacked (outer :: listings) ancestors)
      (meets : s.Meets (outer.rel ++ [name])) (into : s.GoesInto (outer.rel ++ [name])) :
    s.Placed ⟨some (outer.rel ++ [name]), outer :: listings, ancestors, w⟩
  | listing {listings ancestors w} (stack : s.Stacked listings ancestors) :
    s.Placed ⟨none, listings, ancestors, w⟩
  | finish {w} : s.Placed ⟨none, [], [], w⟩

variable {s : Scope} {ancestors : List DirectoryKey} {rel rel' dir : RelPath} {w : WalkState}
  {name : FileName} {rest : List FileName} {loc loc' : Location} {listings : List Listing}
  {key : DirectoryKey} {m m' : Moment}

/-! ### What a step preserves -/

theorem Step.grows (h : s.Step m m') : m.state.Grows m'.state := by
  cases h with
  | refused | cycle => exact WalkState.grows_fail ..
  | list => exact WalkState.grows_visit ..
  | pick => exact WalkState.grows_pick ..
  | seen | descend | pass | leave => exact .refl _

theorem Steps.grows (h : s.Steps m m') : m.state.Grows m'.state := by
  induction h with
  | refl => exact .refl _
  | tail _ step ih => exact ih.trans step.grows

theorem Step.tidy (h : s.Step m m') (tidy : m.Tidy) : m'.Tidy := by
  obtain ⟨nodup, listed⟩ := tidy
  cases h with
  | refused | cycle | seen | descend | pick | pass => exact ⟨nodup, listed⟩
  | list here fresh unseen => exact ⟨nodup.cons fresh, List.cons_subset_cons _ listed⟩
  | leave => exact ⟨nodup.tail, List.Subset.trans (List.tail_subset _) listed⟩

/-- **The ancestors are different and were listed**, at every moment. -/
theorem Reaches.tidy (h : s.Reaches m) : m.Tidy := by
  induction h with
  | refl => exact ⟨.nil, List.nil_subset _⟩
  | tail _ step ih => exact step.tidy ih

/-! ### A directory is listed once -/

/-- The listing is the next step. -/
theorem ListsAt.exists_step (h : s.ListsAt m rel loc) : ∃ m', s.Step m m' ∧
    m'.called = none ∧ m'.listings = ⟨rel, s.tree.children loc⟩ :: m.listings ∧
    m'.ancestors = s.key rel :: m.ancestors ∧ m'.state = m.state.visit (s.key rel) := by
  obtain ⟨called, listings, ancestors, w⟩ := m
  obtain rfl : called = some rel := h.called
  exact ⟨_, .list h.here h.fresh h.unseen, rfl, rfl, rfl, rfl⟩

/-- What is listed was met at every later moment. -/
theorem ListsAt.mem_visited (h : s.ListsAt m rel loc) (later : TransGen s.Step m m') :
    s.key rel ∈ m'.state.visited := by
  obtain ⟨next, step, onward⟩ := TransGen.head'_iff.1 later
  obtain ⟨listing, step', -, -, -, visit⟩ := h.exists_step
  obtain rfl := s.step_rightUnique step step'
  apply (Steps.grows onward).visited
  rw [visit]
  exact List.mem_cons_self

/-- **A directory is listed once**, under all the paths from which it can be told. -/
theorem ListsAt.unique (h : s.ListsAt m rel loc) (h' : s.ListsAt m' rel' loc')
    (same : s.Identifies rel rel') : m = m' := by
  have keys := (key_eq_iff h.here h'.here).2 same
  rcases ReflTransGen.total_of_right_unique s.step_rightUnique h.reached h'.reached with on | back
  · obtain same | later := reflTransGen_iff_eq_or_transGen.1 on
    · exact same.symm
    · exact absurd (keys ▸ h.mem_visited later) h'.unseen
  · obtain same | later := reflTransGen_iff_eq_or_transGen.1 back
    · exact same
    · exact absurd (keys ▸ h'.mem_visited later) h.unseen

theorem Lists.find_eq (h : s.Lists rel loc) : s.find rel = .ok (.directory loc) := by
  obtain ⟨m, lists⟩ := h
  exact lists.here

/-- The root is listed, if it is a directory. -/
theorem lists_root (root : s.find [] = .ok (.directory loc)) : s.Lists [] loc :=
  ⟨_, .refl, rfl, root, List.not_mem_nil, List.not_mem_nil⟩

/-! ### The stack -/

/-- The next name of a listing is met. -/
theorem Stacked.meets (h : s.Stacked (⟨rel, name :: rest⟩ :: listings) ancestors) :
    s.Meets (rel ++ [name]) := by
  cases h with
  | root lists names | down stack lists names =>
    exact ⟨_, name, _, rfl, lists, names List.mem_cons_self⟩

/-- A listing that goes on is a listing. -/
theorem Stacked.next (h : s.Stacked (⟨rel, name :: rest⟩ :: listings) ancestors) :
    s.Stacked (⟨rel, rest⟩ :: listings) ancestors := by
  cases h with
  | root lists names => exact .root lists (List.subset_of_cons_subset names)
  | down stack lists names => exact .down stack lists (List.subset_of_cons_subset names)

/-- The directories around an entry of the innermost listing are found, and they are the
ancestors. -/
theorem Stacked.around (h : s.Stacked (⟨rel, rest⟩ :: listings) ancestors) :
    (∀ way, way <+: rel → ∃ loc, s.find way = .ok (.directory loc)) ∧
      ∀ key, key ∈ ancestors ↔ ∃ way, way <+: rel ∧ s.key way = key := by
  generalize e : (⟨rel, rest⟩ : Listing) :: listings = stack at h
  induction h generalizing rel rest listings with
  | root lists names =>
    cases e
    simp [lists.find_eq, eq_comm]
  | @down outer _ _ name _ loc stack lists names ih =>
    cases e
    obtain ⟨directories, keys⟩ := ih rfl
    refine ⟨fun way start => ?_, fun key => ?_⟩
    · obtain rfl | start := List.prefix_concat_iff.1 start
      · exact ⟨loc, lists.find_eq⟩
      · exact directories way start
    · rw [List.mem_cons, keys]
      constructor
      · rintro (rfl | ⟨way, start, same⟩)
        · exact ⟨_, List.prefix_refl _, rfl⟩
        · exact ⟨way, start.trans (List.prefix_append ..), same⟩
      · rintro ⟨way, start, rfl⟩
        obtain rfl | start := List.prefix_concat_iff.1 start
        · exact .inl rfl
        · exact .inr ⟨way, start, rfl⟩

/-- A step leads from place to place. -/
theorem Step.placed (h : s.Step m m') (reached : s.Reaches m) (placed : s.Placed m) :
    s.Placed m' := by
  cases h with
  | refused | cycle | seen =>
    cases placed with
    | start => exact .finish
    | call stack => exact .listing stack
  | list here fresh unseen =>
    have lists : s.Lists _ _ := ⟨_, reached, rfl, here, fresh, unseen⟩
    cases placed with
    | start => exact .listing (.root lists (List.Subset.refl _))
    | call stack => exact .listing (.down stack lists (List.Subset.refl _))
  | descend into =>
    cases placed with
    | listing stack => exact .call stack.next stack.meets into
  | pick | pass =>
    cases placed with
    | listing stack => exact .listing stack.next
  | leave =>
    cases placed with
    | listing stack =>
      cases stack with
      | root => exact .finish
      | down stack => exact .listing stack

theorem Reaches.placed (h : s.Reaches m) : s.Placed m := by
  induction h with
  | refl => exact .start
  | tail reached step ih => exact step.placed reached ih

/-- The walk is called for what it comes to. -/
theorem Reaches.comes (h : s.Reaches ⟨some rel, listings, ancestors, w⟩) : s.Comes rel := by
  cases h.placed with
  | start => exact .inl rfl
  | call _ meets => exact .inr meets

/-- **The ancestors are the directories on the way** from the root to what is called for. -/
theorem Reaches.mem_ancestors_iff (h : s.Reaches ⟨some rel, listings, ancestors, w⟩)
    (here : s.find rel = .ok (.directory loc)) : s.key rel ∈ ancestors ↔ s.LeadsBack rel := by
  cases h.placed with
  | start => simp [LeadsBack]
  | @call outer _ _ name _ stack meets into =>
    obtain ⟨directories, keys⟩ := Stacked.around stack
    rw [keys]
    constructor
    · rintro ⟨way, start, same⟩
      obtain ⟨place, there⟩ := directories way start
      refine ⟨way, start.trans (List.prefix_append ..), ?_, (key_eq_iff there here).1 same⟩
      intro same
      have short := (same ▸ start).length_le
      rw [List.length_append, List.length_singleton] at short
      omega
    · rintro ⟨way, start, proper, same⟩
      obtain ⟨place, there, -⟩ := same.1
      exact ⟨way, (List.prefix_concat_iff.1 start).resolve_left proper,
        (key_eq_iff there here).2 same⟩

/-! ### What is recorded -/

/-- What the walk has noted at a moment: directories that it listed before, files that it picked,
and entries that lead back, or a root that is no directory. -/
structure Recorded (s : Scope) (m : Moment) : Prop where
  visited : ∀ key ∈ m.state.visited,
    ∃ m₀ rel loc, s.ListsAt m₀ rel loc ∧ s.key rel = key ∧ TransGen s.Step m₀ m
  files : ∀ rel ∈ m.state.files, s.Meets rel ∧ s.PicksFile rel
  errors : ∀ rel fault, (rel, fault) ∈ m.state.errors →
    (fault = .cycle ∧ s.Meets rel ∧ s.ignores rel true = false ∧ s.LeadsBack rel) ∨
      (rel = [] ∧ ∃ cause, s.refusal? [] = some cause ∧ fault = .io cause)

/-- A step notes what it met. -/
theorem Step.recorded (h : s.Step m m') (reached : s.Reaches m) (recorded : s.Recorded m) :
    s.Recorded m' := by
  have placed := reached.placed
  have before : ∀ key ∈ m.state.visited,
      ∃ m₀ rel loc, s.ListsAt m₀ rel loc ∧ s.key rel = key ∧ TransGen s.Step m₀ m' := by
    intro key met
    obtain ⟨m₀, rel, loc, lists, same, later⟩ := recorded.visited key met
    exact ⟨m₀, rel, loc, lists, same, later.tail h⟩
  cases h with
  | seen | descend | pass | leave => exact ⟨before, recorded.files, recorded.errors⟩
  | refused refused =>
    refine ⟨before, recorded.files, fun f fault told => ?_⟩
    obtain told | new := List.mem_append.1 told
    · exact recorded.errors f fault told
    cases List.mem_singleton.1 new
    -- only the root can be refused: the other calls are for what was found to be a directory
    cases placed with
    | start => exact .inr ⟨rfl, _, refused, rfl⟩
    | call stack meets into =>
      rw [refusal?_eq_none_iff.2 into.1] at refused
      cases refused
  | cycle here around =>
    refine ⟨before, recorded.files, fun f fault told => ?_⟩
    obtain told | new := List.mem_append.1 told
    · exact recorded.errors f fault told
    cases List.mem_singleton.1 new
    have back := (reached.mem_ancestors_iff here).1 around
    cases placed with
    | start => cases around
    | call stack meets into => exact .inl ⟨rfl, meets, into.2, back⟩
  | list here fresh unseen =>
    refine ⟨fun key met => ?_, recorded.files, recorded.errors⟩
    obtain rfl | met := List.mem_cons.1 met
    · exact ⟨_, _, _, ⟨reached, rfl, here, fresh, unseen⟩, rfl, .single (.list here fresh unseen)⟩
    · exact before key met
  | pick picks =>
    refine ⟨before, fun f picked => ?_, recorded.errors⟩
    obtain picked | new := List.mem_append.1 picked
    · exact recorded.files f picked
    cases List.mem_singleton.1 new
    cases placed with
    | listing stack => exact ⟨stack.meets, picks⟩

theorem Reaches.recorded (h : s.Reaches m) : s.Recorded m := by
  induction h with
  | refl => exact ⟨by simp [Moment.start], by simp [Moment.start], by simp [Moment.start]⟩
  | tail reached step ih => exact step.recorded reached ih

/-- What was met is what was listed before. -/
theorem Reaches.mem_visited_iff (h : s.Reaches m) (here : s.find rel = .ok (.directory loc)) :
    s.key rel ∈ m.state.visited ↔
      ∃ m₀ rel₀ loc₀, s.ListsAt m₀ rel₀ loc₀ ∧ s.Identifies rel₀ rel ∧ TransGen s.Step m₀ m := by
  constructor
  · intro met
    obtain ⟨m₀, rel₀, loc₀, lists, same, later⟩ := h.recorded.visited _ met
    exact ⟨m₀, rel₀, loc₀, lists, (key_eq_iff lists.here here).1 same, later⟩
  · rintro ⟨m₀, rel₀, loc₀, lists, same, later⟩
    exact (key_eq_iff lists.here here).2 same ▸ lists.mem_visited later

/-! ### What the walk comes to -/

theorem reaches_finish (s : Scope) : s.Reaches s.finish := s.steps_walkDirectory [] [] {} []

/-- The walk comes to every entry of what it lists. -/
theorem Lists.exists_reaches (h : s.Lists dir loc) (entry : name ∈ s.tree.children loc) :
    ∃ rest listings ancestors w,
      s.Reaches ⟨none, ⟨dir, name :: rest⟩ :: listings, s.key dir :: ancestors, w⟩ := by
  obtain ⟨⟨called, listings, ancestors, w⟩, lists⟩ := h
  obtain rfl : called = some dir := lists.called
  obtain ⟨names, rest, split⟩ := List.append_of_mem entry
  have listing := lists.reached.tail (.list lists.here lists.fresh lists.unseen)
  rw [split] at listing
  exact ⟨rest, listings, ancestors, _, listing.trans (s.steps_foldl dir names (name :: rest) ..)⟩

/-- The walk is called for every entry that it goes into. -/
theorem Meets.exists_call (h : s.Meets rel) (into : s.GoesInto rel) :
    ∃ listings ancestors w, s.Reaches ⟨some rel, listings, ancestors, w⟩ := by
  obtain ⟨dir, name, loc, rfl, lists, entry⟩ := h
  obtain ⟨rest, listings, ancestors, w, reached⟩ := lists.exists_reaches entry
  exact ⟨_, _, _, reached.tail (.descend into)⟩

/-- A directory that the walk is called for is listed, then or before. -/
theorem Reaches.exists_lists (h : s.Reaches ⟨some rel, listings, ancestors, w⟩)
    (here : s.find rel = .ok (.directory loc)) : ∃ rel', s.Lists rel' loc := by
  by_cases met : s.key rel ∈ w.visited
  · obtain ⟨m₀, rel', loc', lists, same, -⟩ := (h.mem_visited_iff here).1 met
    exact ⟨rel', m₀, same.1.loc_eq lists.here here ▸ lists⟩
  · exact ⟨rel, _, h, rfl, here, fun around => met (h.tidy.listed around), met⟩

/-- **The listed directories are closed**: where an entry of one leads, if it is not ignored, is
listed too. -/
theorem Meets.exists_lists (h : s.Meets rel) (kept : s.ignores rel true = false)
    (here : s.find rel = .ok (.directory loc)) : ∃ rel', s.Lists rel' loc := by
  obtain ⟨listings, ancestors, w, reached⟩ := h.exists_call ⟨⟨loc, here⟩, kept⟩
  exact reached.exists_lists here

/-- A directory is listed as the root, or as an entry that is not ignored. -/
theorem Lists.eq_nil_or_meets (h : s.Lists rel loc) :
    rel = [] ∨ (s.Meets rel ∧ s.ignores rel true = false) := by
  obtain ⟨⟨called, listings, ancestors, w⟩, lists⟩ := h
  obtain rfl : called = some rel := lists.called
  cases lists.reached.placed with
  | start => exact .inl rfl
  | call stack meets into => exact .inr ⟨meets, into.2⟩

theorem meets_concat_iff : s.Meets (dir ++ [name]) ↔
    ∃ loc, s.Lists dir loc ∧ name ∈ s.tree.children loc := by
  constructor
  · rintro ⟨dir', name', loc, same, lists, entry⟩
    obtain ⟨rfl, last⟩ := List.append_inj' same rfl
    cases last
    exact ⟨loc, lists, entry⟩
  · rintro ⟨loc, lists, entry⟩
    exact ⟨dir, name, loc, rfl, lists, entry⟩

/-- A directory below the root is listed as an entry of one that is listed. -/
theorem Lists.of_concat (h : s.Lists (dir ++ [name]) loc) :
    (∃ around, s.Lists dir around ∧ name ∈ s.tree.children around) ∧
      s.ignores (dir ++ [name]) true = false := by
  obtain none | ⟨meets, kept⟩ := h.eq_nil_or_meets
  · simp at none
  · exact ⟨meets_concat_iff.1 meets, kept⟩

/-- **The files of a walk** are the entries that it meets and picks. -/
theorem mem_files_walk_iff : rel ∈ s.walk.files ↔ s.Meets rel ∧ s.PicksFile rel := by
  constructor
  · exact s.reaches_finish.recorded.files rel
  · rintro ⟨⟨dir, name, loc, rfl, lists, entry⟩, picks⟩
    obtain ⟨rest, listings, ancestors, w, reached⟩ := lists.exists_reaches entry
    have picked : s.Reaches _ := reached.tail (.pick picks)
    exact picked.steps_finish.grows.files (List.mem_append_right _ (List.mem_singleton_self _))

/-- **The cycles of a walk** are the entries that it meets, does not ignore, and that lead back. -/
theorem cycle_mem_errors_walk_iff : (rel, .cycle) ∈ s.walk.errors ↔
    s.Meets rel ∧ s.ignores rel true = false ∧ s.LeadsBack rel := by
  constructor
  · intro told
    obtain ⟨-, cycle⟩ | ⟨-, cause, -, other⟩ := s.reaches_finish.recorded.errors rel .cycle told
    · exact cycle
    · cases other
  · rintro ⟨meets, kept, back⟩
    obtain ⟨way, -, -, ⟨loc, -, here⟩, -⟩ := id back
    obtain ⟨listings, ancestors, w, reached⟩ := meets.exists_call ⟨⟨loc, here⟩, kept⟩
    have told : s.Reaches _ := reached.tail (.cycle here ((reached.mem_ancestors_iff here).2 back))
    exact told.steps_finish.grows.errors (List.mem_append_right _ (List.mem_singleton_self _))

/-- Every other error is that the root cannot be walked. -/
theorem io_mem_errors_walk_iff {cause : IoError} :
    (rel, .io cause) ∈ s.walk.errors ↔ rel = [] ∧ s.refusal? [] = some cause := by
  constructor
  · intro told
    obtain ⟨other, -⟩ | ⟨root, cause', refused, same⟩ :=
      s.reaches_finish.recorded.errors rel (.io cause) told
    · cases other
    · cases same
      exact ⟨root, refused⟩
  · rintro ⟨rfl, refused⟩
    simp [walk, walkDirectory_of_refused refused, WalkState.fail]

/-- A walk from a directory tells of entries that lead back, and of nothing else. -/
theorem cycle_of_mem_errors {fault : WalkFault} (root : s.find [] = .ok (.directory loc))
    (told : (rel, fault) ∈ s.walk.errors) : fault = .cycle ∧ s.Meets rel := by
  cases fault with
  | cycle => exact ⟨rfl, (cycle_mem_errors_walk_iff.1 told).1⟩
  | io cause =>
    obtain ⟨-, refused⟩ := io_mem_errors_walk_iff.1 told
    rw [refusal?_eq_none_iff.2 ⟨loc, root⟩] at refused
    cases refused

end Scope
end Expunge
