import Expunge.Proofs.Files.Update

/-!
# Files behind links

A path may end in a link to the file that it leads to. Deleting takes the link away and leaves the
file, writing changes the file and leaves the link. Whatever route passes the last entry of such a
path ends at its file (`LastEntry.only`), so every other file and every directory is found as
before.
-/

namespace Expunge
set_option autoImplicit false
open Expunge.Path

namespace FileTree

variable {t t' : FileTree} {links links' : Nat} {dir dir' loc loc' : Location} {name : FileName}
  {names rest : List FileName} {path other : String} {bytes bytes' : ByteArray} {e : Entry}

/-! ### Two routes with the same names -/

theorem Leads.more (h : t.Leads links dir names loc) (fewer : links ≤ links') :
    t.Leads links' dir names loc := by
  induction h generalizing links' with
  | arrived => exact .arrived
  | stay dot _ ih => exact .stay dot (ih fewer)
  | up _ ih => exact .up (ih fewer)
  | down named short here _ ih => exact .down named short here (ih fewer)
  | file named short here => exact .file named short here
  | link named short here _ ih =>
    obtain ⟨left, rfl⟩ : ∃ left, links' = left + 1 := ⟨links' - 1, by omega⟩
    exact .link named short here (ih (by omega))

/-- Names lead to one place, however many links may be met. -/
theorem Leads.unique (h : t.Leads links dir names loc) (h' : t.Leads links' dir names loc') :
    loc = loc' := by
  have found := (h.more (Nat.le_max_left links links')).follow_eq
  have found' := (h'.more (Nat.le_max_right links links')).follow_eq
  rw [found, Except.ok.injEq, Place.taken.injEq] at found'
  exact found'

/-- Names that go on behind a file lead to the file. -/
theorem Leads.eq_of_append (h : t.Leads links dir names loc) (inside : t.get? dir = some .directory)
    (file : t.get? loc = some (.file bytes)) (h' : t.Leads links' dir (names ++ rest) loc') :
    loc' = loc := by
  induction h generalizing links' with
  | arrived => cases file.symm.trans inside
  | stay dot _ ih => exact ih inside file (h'.of_dot dot)
  | up _ ih => exact ih (get?_tail inside) file h'.of_up
  | down named _ here _ ih => exact ih here file (h'.of_directory named here)
  | file named _ here => exact (h'.of_file named here).2
  | @link _ _ _ _ target _ named _ here _ ih =>
    obtain ⟨fewer, next⟩ := h'.of_link named here
    exact ih (get?_target inside target) file (by rwa [List.append_assoc])

/-- More bytes in a file and other entries elsewhere are no hindrance: a route in a part of a tree
is one in the tree. -/
theorem Leads.of_part (h : t'.Leads links dir names loc)
    (part : ∀ l e, t'.get? l = some e → ∃ e', t.get? l = some e' ∧ e.Alike e') :
    t.Leads links dir names loc :=
  h.transfer fun _ here _ => part _ _ here

/-- What is found in a part of a tree is found in the tree. -/
theorem find_of_part {found : Found} (h : t.find path = .ok found) (home : t'.home = t.home)
    (part : ∀ loc e, t.get? loc = some e → t'.get? loc = some e) : t'.find path = .ok found := by
  have route : ∀ loc, t.resolve false path = .ok (.taken loc) →
      t'.resolve false path = .ok (.taken loc) := by
    intro loc resolved
    obtain ⟨asked, leads⟩ := resolve_eq_taken_iff.1 resolved
    rw [resolve_eq_taken_iff, start_congr home]
    exact ⟨asked, leads.of_part fun l e here => ⟨e, part l e here, .refl e⟩⟩
  cases found with
  | file loc bytes =>
    obtain ⟨resolved, here⟩ := find_eq_file_iff.1 h
    exact find_eq_file_iff.2 ⟨route loc resolved, part loc _ here⟩
  | directory loc =>
    obtain ⟨resolved, here⟩ := find_eq_directory_iff.1 h
    exact find_eq_directory_iff.2 ⟨route loc resolved, part loc _ here⟩

/-! ### The last entry of a path -/

theorem splitLast_eq_iff {above : List FileName} (some : name ≠ "") :
    splitLast path = (above, name, false) ↔ segments path = above ++ [name] := by
  refine ⟨fun h => ?_, splitLast_eq some⟩
  have parts : (segments path).reverse.takeWhile (· = "") ++
      (segments path).reverse.dropWhile (· = "") = (segments path).reverse :=
    List.takeWhile_append_dropWhile
  unfold splitLast at h
  dsimp only at h
  split at h
  · cases h
  · rename_i last front behind
    obtain ⟨rfl, last⟩ := Prod.mk.inj h
    obtain ⟨rfl, closed⟩ := Prod.mk.inj last
    have none : (segments path).reverse.takeWhile (· = "") = [] := by
      simpa only [Bool.not_eq_false', List.isEmpty_iff] using closed
    rw [none, behind, List.nil_append] at parts
    rw [← List.reverse_reverse (segments path), ← parts, List.reverse_cons]

/-- The parts of a path hold no separator. -/
theorem plain_of_mem_segments (mem : name ∈ segments path) : '/' ∉ name.toList := by
  obtain ⟨part, piece, rfl⟩ := List.mem_map.1 mem
  rw [String.toList_ofList]
  exact Text.notMem_of_mem_splitOn piece

/-- The path names an entry of the directory that is no directory itself: one that a deletion takes
away. -/
structure Names (t : FileTree) (path : String) (name : FileName) (dir : Location) : Prop where
  asked : checkPath path = .ok ()
  named : IsFileName name
  short : name.utf8ByteSize ≤ maxName
  around : ∃ above, segments path = above ++ [name] ∧
    t.Leads maxLinks (t.start path) (above ++ ["."]) dir
  entry : ∃ e, t.get? (name :: dir) = some e ∧ e ≠ .directory

/-- The place that a deletion takes away is that of an entry which the path names. -/
theorem exists_names_of_namedPlace (h : t.namedPlace path = .ok loc) :
    ∃ name dir, loc = name :: dir ∧ t.Names path name dir := by
  unfold namedPlace at h
  simp only [bind, Except.bind] at h
  split at h
  · cases h
  rename_i asked
  split at h
  · cases h
  rename_i place followed
  generalize parts : splitLast path = p at h followed
  obtain ⟨above, name, slash⟩ := p
  dsimp only at h followed
  cases place with
  | vacant _ => cases h
  | taken dir =>
    dsimp only at h
    split at h
    · cases h
    rename_i ordinary
    split at h
    · cases h
    rename_i long
    have named : IsName name :=
      ⟨fun h => ordinary (.inl h), fun h => ordinary (.inr (.inl h)),
        fun h => ordinary (.inr (.inr h))⟩
    have closed : slash = false ∧ name :: dir = loc ∧
        ∃ e, t.get? (name :: dir) = some e ∧ e ≠ .directory := by
      split at h
      · cases h
      · cases h
      · split at h
        · cases h
        · simp_all
      · split at h
        · cases h
        · simp_all
    obtain ⟨rfl, rfl, entry⟩ := closed
    have joined := (splitLast_eq_iff named.some).1 parts
    have part : name ∈ segments path := by simp [joined]
    exact ⟨name, dir, rfl, asked, ⟨named, plain_of_mem_segments part⟩, Nat.le_of_not_lt long,
      ⟨above, joined, leads_of_follow followed⟩, entry⟩

theorem Names.of_namedPlace (h : t.namedPlace path = .ok (name :: dir)) : t.Names path name dir := by
  obtain ⟨name', dir', same, names⟩ := exists_names_of_namedPlace h
  obtain ⟨rfl, rfl⟩ := List.cons.inj same
  exact names

theorem Names.not_directory (h : t.Names path name dir) :
    t.get? (name :: dir) ≠ some .directory := by
  obtain ⟨e, here, kind⟩ := h.entry
  exact fun same => kind (Option.some.inj (here.symm.trans same))

/-- An entry that a path names can be taken away. -/
theorem Names.namedPlace (h : t.Names path name dir) : t.namedPlace path = .ok (name :: dir) := by
  obtain ⟨above, joined, around⟩ := h.around
  obtain ⟨e, here, kind⟩ := h.entry
  have ordinary : ¬ (name = "" ∨ name = "." ∨ name = "..") :=
    fun e => e.elim h.named.some fun e => e.elim h.named.notDot h.named.notUp
  have long : ¬ maxName < name.utf8ByteSize := Nat.not_lt.2 h.short
  simp only [FileTree.namedPlace, h.asked, splitLast_eq h.named.some joined, around.follow_eq, bind,
    Except.bind, if_neg ordinary, if_neg long, here]
  cases e with
  | directory => exact absurd rfl kind
  | file _ => rfl
  | link _ => rfl

/-- The directory around the last name of a path to a file. -/
theorem exists_around_of_find {above : List FileName}
    (found : t.find path = .ok (.file loc bytes)) (parts : segments path = above ++ [name]) :
    ∃ dir fewer, fewer ≤ maxLinks ∧ t.get? dir = some .directory ∧
      t.Leads maxLinks (t.start path) (above ++ ["."]) dir ∧ t.Leads fewer dir [name] loc := by
  obtain ⟨resolved, -⟩ := find_eq_file_iff.1 found
  obtain ⟨-, route⟩ := resolve_eq_taken_iff.1 resolved
  rw [parts] at route
  obtain ⟨dir, fewer, le, inside, routes, last⟩ := route.exists_around
  exact ⟨dir, fewer, le, inside (t.get?_start path), routes ["."] (by simp), last⟩

/-- The last entry of a path to a file: the file itself, or a link that leads to it. -/
structure LastEntry (t : FileTree) (name : FileName) (dir loc : Location) : Prop where
  named : IsFileName name
  file : ∃ bytes, t.get? loc = some (.file bytes)
  leads : ∃ links, t.Leads links dir [name] loc
  /-- What passes the entry ends at the file. -/
  only : ∀ links rest l, t.Leads links dir (name :: rest) l → l = loc

/-- A path to a file names the last entry of its route. -/
theorem exists_lastEntry
    (found : t.find path = .ok (.file loc bytes)) (place : t.namedPlace path = .ok loc') :
    ∃ name dir, loc' = name :: dir ∧ t.LastEntry name dir loc := by
  obtain ⟨name, dir, rfl, names⟩ := exists_names_of_namedPlace place
  obtain ⟨above, parts, around⟩ := names.around
  obtain ⟨dir', fewer, -, inside, around', last⟩ := exists_around_of_find found parts
  obtain rfl : dir' = dir := around'.unique around
  have file := get?_of_find_eq_file found
  exact ⟨name, dir', rfl, names.named, ⟨bytes, file⟩, ⟨fewer, last⟩,
    fun _ _ _ route => last.eq_of_append inside file route⟩

/-- The last entry of a path leads to its file, over no more links than a path may meet. -/
theorem leads_of_namedPlace (found : t.find path = .ok (.file loc bytes))
    (place : t.namedPlace path = .ok (name :: dir)) : t.Leads maxLinks dir [name] loc := by
  obtain ⟨above, parts, around⟩ := (Names.of_namedPlace place).around
  obtain ⟨dir', fewer, le, -, around', last⟩ := exists_around_of_find found parts
  obtain rfl : dir' = dir := around'.unique around
  exact last.more le

theorem LastEntry.not_directory (last : t.LastEntry name dir loc) :
    t.get? (name :: dir) ≠ some .directory := by
  intro here
  obtain ⟨bytes, file⟩ := last.file
  obtain ⟨links, route⟩ := last.leads
  cases route.of_directory last.named.toIsName here
  cases file.symm.trans here

theorem LastEntry.eq_of_file (last : t.LastEntry name dir loc)
    (here : t.get? (name :: dir) = some (.file bytes)) : loc = name :: dir := by
  obtain ⟨links, route⟩ := last.leads
  exact (route.of_file last.named.toIsName here).2

/-! ### Deleting -/

theorem get?_of_erase {l : Location} (h : (t.erase loc).get? l = some e) : t.get? l = some e := by
  by_cases directory : t.get? l = some .directory
  · rw [erase, updateAt, get?_update, directory, Option.bind_some, Entry.settle_directory] at h
    rw [directory, h]
  · by_cases same : l = loc
    · rw [get?_erase (same ▸ directory), if_pos same] at h
      cases h
    · rwa [erase, get?_updateAt_of_ne same] at h

theorem Leads.of_erase (h : (t.erase (name :: dir)).Leads links dir' names loc) :
    t.Leads links dir' names loc :=
  h.of_part fun _ e here => ⟨e, get?_of_erase here, .refl e⟩

/-- A route to another place than the file does not pass its last entry. -/
theorem Leads.erase {l : Location} (h : t.Leads links dir' names l)
    (last : t.LastEntry name dir loc) (other : l ≠ loc) :
    (t.erase (name :: dir)).Leads links dir' names l := by
  refine h.transfer fun {_ d n _ e} _ here route => ⟨e, ?_, .refl e⟩
  rw [get?_erase last.not_directory, if_neg, here]
  intro same
  obtain ⟨rfl, rfl⟩ := List.cons.inj same
  exact other (last.only _ _ _ route)

/-- Every other file is found as before. -/
theorem find_erase {l : Location} (last : t.LastEntry name dir loc) (other : l ≠ loc)
    (found : t.find path = .ok (.file l bytes)) :
    (t.erase (name :: dir)).find path = .ok (.file l bytes) := by
  rw [find_eq_file_iff, resolve_eq_taken_iff] at found ⊢
  obtain ⟨⟨asked, route⟩, here⟩ := found
  refine ⟨⟨asked, route.erase last other⟩, ?_⟩
  rw [get?_erase last.not_directory, if_neg, here]
  rintro rfl
  exact other (last.eq_of_file here).symm

/-- The path of the file finds nothing any more. -/
theorem find_erase_self (place : t.namedPlace path = .ok (name :: dir)) :
    (t.erase (name :: dir)).find path ≠ .ok (.file loc bytes) := by
  intro found
  have names := Names.of_namedPlace place
  obtain ⟨above, parts, around⟩ := names.around
  obtain ⟨dir', fewer, -, -, around', last⟩ := exists_around_of_find found parts
  obtain rfl : dir' = dir := around'.of_erase.unique around
  have gone : (t.erase (name :: dir')).get? (name :: dir') = none := by
    rw [get?_erase names.not_directory, if_pos rfl]
  rcases last.entry_cases names.named.toIsName with ⟨here, -⟩ | ⟨_, here, -⟩ | ⟨_, _, here, -⟩ <;>
    exact absurd (gone.symm.trans here) (by simp)

/-! ### Writing -/

section
variable (here : t.get? loc = some (.file bytes))
include here

theorem get?_put_file (l : Location) :
    (t.put loc (.file bytes')).get? l = if l = loc then some (.file bytes') else t.get? l := by
  have noDirectory : t.get? loc ≠ some .directory := by simp [here]
  obtain ⟨name, dir, rfl⟩ := exists_name noDirectory
  exact get?_put (.of_get? here (by simp)) (.file bytes') l

/-- Other bytes in a file leave everything alike. -/
theorem exists_alike_put (bytes' : ByteArray) {l : Location} (found : t.get? l = some e) :
    ∃ e', (t.put loc (.file bytes')).get? l = some e' ∧ e.Alike e' := by
  rw [get?_put_file here]
  split
  · rename_i same
    obtain rfl : e = .file bytes := by simpa [same, here] using found.symm
    exact ⟨_, rfl, .file bytes bytes'⟩
  · exact ⟨e, found, .refl e⟩

theorem exists_alike_of_put {l : Location} (found : (t.put loc (.file bytes')).get? l = some e) :
    ∃ e', t.get? l = some e' ∧ e.Alike e' := by
  rw [get?_put_file here] at found
  split at found
  · rename_i same
    obtain rfl := Option.some.inj found
    exact ⟨_, same ▸ here, .file bytes' bytes⟩
  · exact ⟨e, found, .refl e⟩

/-- Every file is found where it was found, and the others with the bytes they had. -/
theorem find_put (bytes' : ByteArray) {l : Location} {b : ByteArray}
    (elsewhere : t.find other = .ok (.file l b)) :
    (t.put loc (.file bytes')).find other = .ok (.file l (if l = loc then bytes' else b)) := by
  refine find_of_agree elsewhere home_put (fun l' noFile => ?_) ?_
  · have different : l' ≠ loc := fun same => noFile bytes (same ▸ here)
    rw [get?_put_file here, if_neg different]
  · rw [get?_put_file here]
    split
    · rfl
    · exact get?_of_find_eq_file elsewhere

end

/-! ### Trees that files were changed in and taken from -/

/-- Some files of a tree have other bytes in another one, and others are gone, or the links to
them. -/
structure Reduces (t t' : FileTree) : Prop where
  home : t'.home = t.home
  listed : (t'.entries.map (·.1)).Sublist (t.entries.map (·.1))
  part : ∀ loc e, t'.get? loc = some e → ∃ e', t.get? loc = some e' ∧ e.Alike e'
  directory : ∀ loc, t.get? loc = some .directory → t'.get? loc = some .directory
  /-- The routes to directories are left. -/
  route : ∀ links dir names loc, t.Leads links dir names loc → t.get? loc = some .directory →
    t'.Leads links dir names loc
  /-- What is gone was not on the way to a directory. -/
  gone : ∀ name dir, t.get? (name :: dir) ≠ none → t'.get? (name :: dir) = none →
    IsFileName name ∧ ∀ links loc, t.Leads links dir [name] loc → t.get? loc ≠ some .directory

theorem Reduces.refl (t : FileTree) : t.Reduces t where
  home := rfl
  listed := .refl _
  part _ e here := ⟨e, here, .refl e⟩
  directory _ here := here
  route _ _ _ _ route _ := route
  gone _ _ some none := absurd none some

theorem Reduces.trans {t'' : FileTree} (h : t.Reduces t') (h' : t'.Reduces t'') :
    t.Reduces t'' where
  home := h'.home.trans h.home
  listed := h'.listed.trans h.listed
  part loc e here := by
    obtain ⟨e', here', like⟩ := h'.part loc e here
    obtain ⟨e'', here'', like'⟩ := h.part loc e' here'
    exact ⟨e'', here'', like.trans like'⟩
  directory loc here := h'.directory loc (h.directory loc here)
  route links dir names loc route here :=
    h'.route links dir names loc (h.route links dir names loc route here) (h.directory loc here)
  gone name dir some none := by
    by_cases before : t'.get? (name :: dir) = .none
    · exact h.gone name dir some before
    · obtain ⟨named, apart⟩ := h'.gone name dir before none
      refine ⟨named, fun links loc route here => ?_⟩
      exact apart links loc (h.route links dir [name] loc route here) (h.directory loc here)

theorem LastEntry.reduces (last : t.LastEntry name dir loc) :
    t.Reduces (t.erase (name :: dir)) where
  home := rfl
  listed := sublist_update _ _
  part _ e here := ⟨e, get?_of_erase here, .refl e⟩
  directory l here := by
    rw [get?_erase last.not_directory, if_neg, here]
    rintro rfl
    exact last.not_directory here
  route links d names l route here := by
    refine route.erase last ?_
    rintro rfl
    obtain ⟨bytes, file⟩ := last.file
    cases file.symm.trans here
  gone n d some none := by
    rw [get?_erase last.not_directory, ite_eq_left_iff] at none
    obtain ⟨rfl, rfl⟩ := List.cons.inj (by_contra fun other => some (none other))
    refine ⟨last.named, fun links l route here => ?_⟩
    obtain ⟨bytes, file⟩ := last.file
    rw [last.only links [] l route] at here
    cases file.symm.trans here

theorem reduces_put (here : t.get? loc = some (.file bytes)) :
    t.Reduces (t.put loc (.file bytes')) where
  home := home_put
  listed := by
    have noDirectory : t.get? loc ≠ some .directory := by simp [here]
    obtain ⟨name, dir, rfl⟩ := exists_name noDirectory
    rw [put_eq_updateAt here]
    exact sublist_update _ _
  part _ _ := exists_alike_of_put here
  directory l found := by
    obtain ⟨e, found', like⟩ := exists_alike_put here bytes' found
    cases like
    exact found'
  route links d names l route _ := route.transfer fun _ found _ => exists_alike_put here bytes' found
  gone n d some none := by
    obtain ⟨e, found⟩ := Option.ne_none_iff_exists'.1 some
    obtain ⟨e', found', -⟩ := exists_alike_put here bytes' found
    exact absurd none (by simp [found'])

/-- A file that is found in the reduced tree was found at the same place. -/
theorem Reduces.exists_find (h : t.Reduces t') (found : t'.find path = .ok (.file loc bytes)) :
    ∃ bytes', t.find path = .ok (.file loc bytes') := by
  rw [find_eq_file_iff, resolve_eq_taken_iff, start_congr h.home] at found
  obtain ⟨⟨asked, route⟩, here⟩ := found
  obtain ⟨e, before, like⟩ := h.part loc _ here
  have route' := route.of_part h.part
  cases like with
  | refl => exact ⟨bytes, find_eq_file_iff.2 ⟨resolve_eq_taken_iff.2 ⟨asked, route'⟩, before⟩⟩
  | file _ bytes' =>
    exact ⟨bytes', find_eq_file_iff.2 ⟨resolve_eq_taken_iff.2 ⟨asked, route'⟩, before⟩⟩

/-- What a path names in the reduced tree it named before. -/
theorem Reduces.namedPlace (h : t.Reduces t') (place : t'.namedPlace path = .ok loc) :
    t.namedPlace path = .ok loc := by
  obtain ⟨name, dir, rfl, names⟩ := exists_names_of_namedPlace place
  obtain ⟨above, parts, around⟩ := names.around
  rw [start_congr h.home] at around
  obtain ⟨e, here, kind⟩ := names.entry
  obtain ⟨e', before, like⟩ := h.part _ _ here
  refine (Names.mk names.asked names.named names.short ⟨above, parts, around.of_part h.part⟩
    ⟨e', before, ?_⟩).namedPlace
  rintro rfl
  cases like
  exact kind rfl

/-- Directories are found alike. -/
theorem Reduces.find_directory_iff (h : t.Reduces t') :
    t'.find path = .ok (.directory loc) ↔ t.find path = .ok (.directory loc) := by
  rw [find_eq_directory_iff, find_eq_directory_iff, resolve_eq_taken_iff, resolve_eq_taken_iff,
    start_congr h.home]
  constructor
  · rintro ⟨⟨asked, route⟩, here⟩
    obtain ⟨e, before, like⟩ := h.part loc _ here
    cases like
    exact ⟨⟨asked, route.of_part h.part⟩, before⟩
  · rintro ⟨⟨asked, route⟩, here⟩
    exact ⟨⟨asked, h.route _ _ _ _ route here⟩, h.directory loc here⟩

end FileTree
end Expunge
