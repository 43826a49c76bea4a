import Expunge.Files.IoError
import Expunge.Files.Path

/-!
# File trees

The files, directories and symbolic links below a top directory, as a finite map from locations in
the order in which directories are listed. Every entry has a name and stands in a directory, and
relative paths start in one. A tree may refuse to have a file read, written or deleted; such an
operation then fails and changes nothing.

All changes are instances of `update`, which tells what becomes of each file and link; directories
stay. `get?_update` and `get?_put` say what a change does to each location, and the order of the
other entries never changes.

Not modelled: two names for one file, directories that cannot be listed or passed through, and
operations that fail halfway.
-/

namespace Expunge
set_option autoImplicit false

/-- The place of an entry: its name and those of the directories around it, the innermost
first. -/
abbrev Location := List FileName

/-- What stands at a location. -/
inductive Entry
  | file (bytes : ByteArray)
  | directory
  | link (target : String)
  deriving Inhabited

namespace Entry

/-- Files are compared by their bytes. -/
instance : DecidableEq Entry
  | .file a, .file b => decidable_of_iff (a.data = b.data) (by simp [ByteArray.ext_iff])
  | .directory, .directory => .isTrue rfl
  | .link s, .link t => decidable_of_iff (s = t) (by simp)
  | .file _, .directory | .file _, .link _ | .directory, .file _ | .directory, .link _
  | .link _, .file _ | .link _, .directory => .isFalse (by simp)

/-- What becomes of an entry, if `f` tells it of files and links. -/
def settle (f : Entry → Option Entry) : Entry → Option Entry
  | file bytes => f (file bytes)
  | directory => some directory
  | link target => f (link target)

variable {f : Entry → Option Entry} {e : Entry}

@[simp] theorem settle_directory : settle f directory = some directory := rfl

theorem settle_of_ne (noDirectory : e ≠ directory) : settle f e = f e := by
  cases e with
  | directory => exact absurd rfl noDirectory
  | file _ | link _ => rfl

@[simp] theorem settle_some : settle some e = some e := by cases e <;> rfl

end Entry

/-- What a program may want to do with a file. -/
inductive Access
  | read
  | write
  | remove
  deriving DecidableEq, Repr

/-- What is refused at a place, and why. -/
abbrev Refusals := Access → Option IoError

/-- The location is one of a directory: the top, or an entry. -/
def HasDirectory (entries : List (Location × Entry)) (dir : Location) : Prop :=
  dir = [] ∨ (dir, .directory) ∈ entries

instance (entries : List (Location × Entry)) (dir : Location) :
    Decidable (HasDirectory entries dir) :=
  inferInstanceAs (Decidable (_ ∨ _))

/-- An entry can stand at the location. -/
def IsPlaced (entries : List (Location × Entry)) : Location → Prop
  | [] => False
  | name :: dir => IsFileName name ∧ HasDirectory entries dir

instance (entries : List (Location × Entry)) : (loc : Location) → Decidable (IsPlaced entries loc)
  | [] => .isFalse id
  | _ :: _ => inferInstanceAs (Decidable (_ ∧ _))

theorem IsPlaced.imp {entries entries' : List (Location × Entry)} {loc : Location}
    (h : IsPlaced entries loc) (around : HasDirectory entries loc.tail → HasDirectory entries' loc.tail) :
    IsPlaced entries' loc := by
  cases loc with
  | nil => exact h
  | cons name dir => exact ⟨h.1, around h.2⟩

/-- A finite map from locations to entries, each in a directory. -/
structure FileTree where
  entries : List (Location × Entry)
  /-- The directory where relative paths start. -/
  home : Location := []
  /-- The accesses that are refused, at each location. -/
  refusals : Location → Refusals := fun _ _ => none
  /-- A location has one entry. -/
  nodup : (entries.map (·.1)).Nodup := by decide
  placed : ∀ e ∈ entries, IsPlaced entries e.1 := by decide
  homed : HasDirectory entries home := by decide

namespace FileTree

/-- A tree without entries. -/
def empty : FileTree := { entries := [] }

instance : Inhabited FileTree := ⟨empty⟩

/-- What stands at a location; the top is a directory. -/
def get? (t : FileTree) : Location → Option Entry
  | [] => some .directory
  | loc => (t.entries.find? (·.1 = loc)).map (·.2)

/-- The names in a directory, in the order of listing. -/
def children (t : FileTree) (dir : Location) : List FileName :=
  t.entries.filterMap fun e =>
    match e.1 with
    | name :: parent => if parent = dir then some name else none
    | [] => none

variable {t t' : FileTree} {name : FileName} {dir loc : Location} {e : Entry}
  {f g : Location → Entry → Option Entry}

/-! ### Looking up -/

@[simp] theorem get?_nil (t : FileTree) : t.get? [] = some .directory := rfl

theorem get?_cons (t : FileTree) (name : FileName) (dir : Location) :
    t.get? (name :: dir) = (t.entries.find? (·.1 = name :: dir)).map (·.2) := rfl

/-- Different entries have different locations. -/
theorem eq_of_mem_entries (here : (loc, e) ∈ t.entries) {e' : Entry} (here' : (loc, e') ∈ t.entries) :
    e = e' := by
  have nodup := t.nodup
  generalize t.entries = es at here here' nodup
  induction es with
  | nil => cases here
  | cons p es ih =>
    obtain ⟨fresh, nodup⟩ := List.nodup_cons.1 nodup
    rcases List.mem_cons.1 here with first | here <;> rcases List.mem_cons.1 here' with first' | here'
    · exact (Prod.mk.inj (first.trans first'.symm)).2
    · exact absurd (List.mem_map.2 ⟨_, here', by rw [← first]⟩) fresh
    · exact absurd (List.mem_map.2 ⟨_, here, by rw [← first']⟩) fresh
    · exact ih here here' nodup

/-- What is looked up is the one entry of the location. -/
theorem get?_eq_some_iff : t.get? (name :: dir) = some e ↔ (name :: dir, e) ∈ t.entries := by
  rw [get?_cons, Option.map_eq_some_iff]
  constructor
  · rintro ⟨p, found, rfl⟩
    have place : p.1 = name :: dir := by simpa using List.find?_some found
    exact place ▸ List.mem_of_find?_eq_some found
  · intro mem
    have found : (t.entries.find? (·.1 = name :: dir)).isSome := by
      rw [List.find?_isSome]
      exact ⟨_, mem, by simp⟩
    obtain ⟨p, hp⟩ := Option.isSome_iff_exists.1 found
    have place : p.1 = name :: dir := by simpa using List.find?_some hp
    exact ⟨p, hp, eq_of_mem_entries (place ▸ List.mem_of_find?_eq_some hp) mem⟩

theorem hasDirectory_iff : HasDirectory t.entries dir ↔ t.get? dir = some .directory := by
  cases dir with
  | nil => simp [HasDirectory]
  | cons name dir => simp [HasDirectory, get?_eq_some_iff]

/-- An entry has a name and stands in a directory. -/
theorem isPlaced_of_get? (here : t.get? (name :: dir) = some e) :
    IsFileName name ∧ t.get? dir = some .directory := by
  obtain ⟨named, around⟩ := t.placed _ (get?_eq_some_iff.1 here)
  exact ⟨named, hasDirectory_iff.1 around⟩

/-- All names on the way to an entry are names of files. -/
theorem isFileName_of_mem (here : t.get? loc = some e) : ∀ n ∈ loc, IsFileName n := by
  induction loc generalizing e with
  | nil => exact fun n mem => absurd mem List.not_mem_nil
  | cons name dir ih =>
    obtain ⟨named, around⟩ := isPlaced_of_get? here
    exact List.forall_mem_cons.2 ⟨named, ih around⟩

/-- The directory around a directory is one. -/
theorem get?_tail (here : t.get? dir = some .directory) : t.get? dir.tail = some .directory := by
  cases dir with
  | nil => exact here
  | cons name dir => exact (isPlaced_of_get? here).2

theorem get?_home (t : FileTree) : t.get? t.home = some .directory := hasDirectory_iff.1 t.homed

/-- What is no directory has a name, for the top is one. -/
theorem exists_name (noDirectory : t.get? loc ≠ some .directory) :
    ∃ name dir, loc = name :: dir := by
  cases loc with
  | nil => exact absurd t.get?_nil noDirectory
  | cons name dir => exact ⟨name, dir, rfl⟩

/-- The names in a directory are those under which something stands in it. -/
theorem mem_children_iff : name ∈ t.children dir ↔ t.get? (name :: dir) ≠ none := by
  rw [Option.ne_none_iff_exists', children, List.mem_filterMap]
  simp only [get?_eq_some_iff]
  constructor
  · rintro ⟨⟨loc, e⟩, mem, found⟩
    cases loc with
    | nil => cases found
    | cons n parent =>
      simp only [Option.ite_none_right_eq_some, Option.some.injEq] at found
      obtain ⟨rfl, rfl⟩ := found
      exact ⟨e, mem⟩
  · rintro ⟨e, mem⟩
    exact ⟨_, mem, if_pos rfl⟩

theorem isFileName_of_mem_children (mem : name ∈ t.children dir) : IsFileName name := by
  obtain ⟨e, here⟩ := Option.ne_none_iff_exists'.1 (mem_children_iff.1 mem)
  exact (isPlaced_of_get? here).1

/-! ### Changes of files and links -/

/-- The tree in which `f` tells what becomes of each file and link. -/
def update (t : FileTree) (f : Location → Entry → Option Entry) : FileTree :=
  { t with
    entries := t.entries.filterMap fun p => (p.2.settle (f p.1)).map (p.1, ·)
    nodup := by
      refine t.nodup.sublist ?_
      induction t.entries with
      | nil => exact .slnil
      | cons p es ih =>
        cases h : p.2.settle (f p.1) with
        | none => simpa [h] using ih.cons p.1
        | some e => simpa [h] using ih.cons_cons p.1
    placed := by
      intro p mem
      obtain ⟨q, before, changed⟩ := List.mem_filterMap.1 mem
      obtain ⟨e, -, rfl⟩ := Option.map_eq_some_iff.1 changed
      exact (t.placed q before).imp <| Or.imp_right fun here => List.mem_filterMap.2 ⟨_, here, rfl⟩
    homed := t.homed.imp_right fun here => List.mem_filterMap.2 ⟨_, here, rfl⟩ }

/-- The tree in which `f` tells what becomes of the file or link at one location. -/
def updateAt (t : FileTree) (loc : Location) (f : Entry → Option Entry) : FileTree :=
  t.update fun l e => if l = loc then f e else some e

@[simp] theorem home_update : (t.update f).home = t.home := rfl

@[simp] theorem refusals_update : (t.update f).refusals = t.refusals := rfl

theorem get?_update (t : FileTree) (f : Location → Entry → Option Entry) (loc : Location) :
    (t.update f).get? loc = (t.get? loc).bind (Entry.settle (f loc)) := by
  cases loc with
  | nil => rfl
  | cons name dir =>
    ext e
    rw [get?_eq_some_iff, Option.bind_eq_some_iff]
    constructor
    · intro h
      obtain ⟨p, hp, he⟩ := List.mem_filterMap.1 h
      obtain ⟨e', changed, same⟩ := Option.map_eq_some_iff.1 he
      obtain ⟨first, rfl⟩ := Prod.mk.inj same
      exact ⟨p.2, get?_eq_some_iff.2 (first ▸ hp), first ▸ changed⟩
    · rintro ⟨e', here, changed⟩
      refine List.mem_filterMap.2 ⟨_, get?_eq_some_iff.1 here, ?_⟩
      simp [changed]

theorem get?_updateAt_of_ne {f : Entry → Option Entry} {l : Location} (other : l ≠ loc) :
    (t.updateAt loc f).get? l = t.get? l := by
  rw [updateAt, get?_update]
  simp only [if_neg other]
  cases t.get? l with
  | none => rfl
  | some e => exact Entry.settle_some

theorem get?_updateAt_self {f : Entry → Option Entry} :
    (t.updateAt loc f).get? loc = (t.get? loc).bind (Entry.settle f) := by
  rw [updateAt, get?_update]
  simp

/-- Takes the file or link at a location away. -/
def erase (t : FileTree) (loc : Location) : FileTree := t.updateAt loc fun _ => none

@[simp] theorem home_erase : (t.erase loc).home = t.home := rfl

@[simp] theorem refusals_erase : (t.erase loc).refusals = t.refusals := rfl

/-- An erased location is empty, and every other one as before. -/
theorem get?_erase (noDirectory : t.get? loc ≠ some .directory) (l : Location) :
    (t.erase loc).get? l = if l = loc then none else t.get? l := by
  rw [erase]
  split
  · rename_i same
    subst same
    rw [get?_updateAt_self]
    cases here : t.get? l with
    | none => rfl
    | some e =>
      rw [Option.bind_some]
      exact Entry.settle_of_ne fun same => noDirectory (same ▸ here)
  · rename_i other
    exact get?_updateAt_of_ne other

/-! ### New entries -/

/-- Puts an entry in the place of a file or link, or after the others where nothing stands yet; the
directory around it must be there. -/
def put (t : FileTree) (loc : Location) (e : Entry) : FileTree :=
  if taken : loc ∈ t.entries.map (·.1) then t.updateAt loc fun _ => some e
  else if room : IsPlaced t.entries loc then
    { t with
      entries := t.entries ++ [(loc, e)]
      nodup := by
        rw [List.map_append, List.nodup_append]
        exact ⟨t.nodup, by simp, by rintro a ha b hb rfl; simp_all⟩
      placed := by
        intro p mem
        have before : IsPlaced t.entries p.1 := by
          rcases List.mem_append.1 mem with mem | mem
          · exact t.placed p mem
          · exact List.eq_of_mem_singleton mem ▸ room
        exact before.imp <| Or.imp_right <| List.mem_append_left _
      homed := t.homed.imp_right <| List.mem_append_left _ }
  else t

/-- A file or link can be put at the location: its directory is there, and it is none itself. -/
structure Admits (t : FileTree) (name : FileName) (dir : Location) : Prop where
  named : IsFileName name
  around : t.get? dir = some .directory
  noDirectory : t.get? (name :: dir) ≠ some .directory

theorem Admits.of_get? (here : t.get? (name :: dir) = some e) (noDirectory : e ≠ .directory) :
    t.Admits name dir :=
  ⟨(isPlaced_of_get? here).1, (isPlaced_of_get? here).2,
    fun same => noDirectory (Option.some.inj (here.symm.trans same))⟩

@[simp] theorem home_put : (t.put loc e).home = t.home := by
  unfold put
  split
  · rfl
  · split <;> rfl

@[simp] theorem refusals_put : (t.put loc e).refusals = t.refusals := by
  unfold put
  split
  · rfl
  · split <;> rfl

/-- Putting an entry in the place of another is a change in place. -/
theorem put_eq_updateAt {e' : Entry} (here : t.get? (name :: dir) = some e) :
    t.put (name :: dir) e' = t.updateAt (name :: dir) fun _ => some e' :=
  dif_pos (List.mem_map.2 ⟨_, get?_eq_some_iff.1 here, rfl⟩)

/-- A put is seen at its location and nowhere else. -/
theorem get?_put (room : t.Admits name dir) (e : Entry) (l : Location) :
    (t.put (name :: dir) e).get? l = if l = name :: dir then some e else t.get? l := by
  cases here : t.get? (name :: dir) with
  | some old =>
    rw [put_eq_updateAt here]
    split
    · rename_i same
      rw [same, get?_updateAt_self, here, Option.bind_some]
      exact Entry.settle_of_ne fun same => room.noDirectory (same ▸ here)
    · rename_i other
      exact get?_updateAt_of_ne other
  | none =>
    have free : name :: dir ∉ t.entries.map (·.1) := by
      intro mem
      obtain ⟨p, hp, same⟩ := List.mem_map.1 mem
      have stands : t.get? (name :: dir) = some p.2 := get?_eq_some_iff.2 (same ▸ hp)
      cases here.symm.trans stands
    have placed : IsPlaced t.entries (name :: dir) := ⟨room.named, hasDirectory_iff.2 room.around⟩
    rw [put, dif_neg free, dif_pos placed]
    cases l with
    | nil => simp
    | cons n d =>
      ext e'
      rw [get?_eq_some_iff, List.mem_append, List.mem_singleton, Prod.mk.injEq, ← get?_eq_some_iff]
      split
      · rename_i same
        simp [same, here, eq_comm]
      · rename_i other
        simp [other]

/-- Takes an entry away with everything below it, unless relative paths start there. -/
def eraseBelow (t : FileTree) (loc : Location) : FileTree :=
  if inside : loc <:+ t.home then t
  else
    { t with
      entries := t.entries.filter fun p => ¬ loc <:+ p.1
      nodup := t.nodup.sublist (List.filter_sublist.map _)
      placed := by
        intro p mem
        obtain ⟨mem, outside⟩ := List.mem_filter.1 mem
        refine (t.placed p mem).imp <| Or.imp_right fun here => List.mem_filter.2 ⟨here, ?_⟩
        exact decide_eq_true fun below =>
          of_decide_eq_true outside (below.trans (List.tail_suffix p.1))
      homed := t.homed.imp_right fun here => List.mem_filter.2 ⟨here, decide_eq_true inside⟩ }

/-- Refuses an access at a location. -/
def refuse (t : FileTree) (access : Access) (loc : Location) (cause : IoError) : FileTree :=
  { t with refusals := fun l a => if l = loc ∧ a = access then some cause else t.refusals l a }

/-- Lets relative paths start in another directory, if it is one. -/
def atHome (t : FileTree) (loc : Location) : FileTree :=
  if homed : HasDirectory t.entries loc then { t with home := loc, homed } else t

end FileTree
end Expunge
