import Expunge.Proofs.Files.Linked

/-!
# What a write leaves

A write goes where reading goes (`follow_of_creating`), or to a place that a link names and where
nothing stands yet. Either way its path leads to the written file afterwards (`find_of_write`), and
a path to a file is written at that file (`writePlace_of_find`).
-/

namespace Expunge.FileTree
set_option autoImplicit false
open Expunge.Path

variable {t t' : FileTree} {links : Nat} {dir loc : Location} {name : FileName}
  {names rest : List FileName} {path content : String} {bytes : ByteArray} {place : Place}
  {onLink onLink' : Location → List FileName → Except IoError Place}

/-! ### Following names to a place to write -/

/-- What a name on the way to a place to write can be. -/
theorem followNames_creating_cases (named : IsName name)
    (h : t.followNames true onLink dir (name :: rest) = .ok place) :
    name.utf8ByteSize ≤ maxName ∧
      ((t.get? (name :: dir) = none ∧ rest = [] ∧ place = .vacant (name :: dir)) ∨
      (t.get? (name :: dir) = some .directory ∧
        t.followNames true onLink (name :: dir) rest = .ok place) ∨
      (∃ bytes, t.get? (name :: dir) = some (.file bytes) ∧ rest = [] ∧
        place = .taken (name :: dir)) ∨
      ∃ target, t.get? (name :: dir) = some (.link target) ∧
        onLink (if isAbsolute target then [] else dir) (segments target ++ rest) = .ok place) := by
  have notDot : ¬ (name = "" ∨ name = ".") := not_or.2 ⟨named.some, named.notDot⟩
  rw [followNames, if_neg notDot, if_neg named.notUp] at h
  split at h
  · cases h
  rename_i ended
  split at h
  · cases h
  rename_i long
  refine ⟨Nat.le_of_not_lt long, ?_⟩
  split at h
  · rename_i here
    split at h
    · rename_i blank
      -- with names behind it, be they empty, the place would be refused
      have last : rest = [] := by_contra fun more => ended ⟨rfl, more, blank⟩
      exact .inl ⟨here, last, (Except.ok.inj h).symm⟩
    · cases h
  · rename_i here
    exact .inr (.inl ⟨here, h⟩)
  · rename_i bytes here
    split at h
    · rename_i last
      exact .inr (.inr (.inl ⟨bytes, here, last, (Except.ok.inj h).symm⟩))
    · cases h
  · rename_i target here
    exact .inr (.inr (.inr ⟨target, here, h⟩))

/-- A place to write is where reading goes, if it is so from every link on. -/
theorem followNames_of_creating
    (afterLink : ∀ d ns, onLink d ns = .ok place → onLink' d ns = .ok place)
    (h : t.followNames true onLink dir names = .ok place) :
    t.followNames false onLink' dir names = .ok place := by
  induction names generalizing dir with
  | nil => exact h
  | cons name rest ih =>
    rcases name_cases name with dot | rfl | named
    · rw [followNames_dot dot] at h ⊢
      exact ih h
    · rw [followNames_up] at h ⊢
      exact ih h
    · obtain ⟨short, step⟩ := followNames_creating_cases named h
      rw [followNames_name named short (by simp)]
      rcases step with ⟨here, rfl, rfl⟩ | ⟨here, next⟩ | ⟨_, here, rfl, rfl⟩ | ⟨_, here, next⟩
      · simp [here]
      · simpa [here] using ih next
      · simp [here]
      · simpa [here] using afterLink _ _ next

theorem follow_of_creating (h : t.follow true links dir names = .ok place) :
    t.follow false links dir names = .ok place := by
  induction links generalizing dir names with
  | zero => exact followNames_of_creating (fun _ _ => id) h
  | succ links ih => exact followNames_of_creating (fun _ _ => ih) h

/-! ### A place where nothing stands -/

/-- Names lead to a place where a file can be made, and to the file when it is there. -/
structure Vacancy (t : FileTree) (links : Nat) (dir : Location) (names : List FileName)
    (loc : Location) : Prop where
  room : ∃ name parent, loc = name :: parent ∧ t.Admits name parent
  free : t.get? loc = none
  filled : ∀ (t' : FileTree) (bytes : ByteArray), (∀ l e, t.get? l = some e → t'.get? l = some e) →
    t'.get? loc = some (.file bytes) → t'.Leads links dir names loc

/-- A file that is put there is all that changes. -/
theorem Vacancy.put (h : t.Vacancy links dir names loc) (bytes : ByteArray) :
    (∀ l e, t.get? l = some e → (t.put loc (.file bytes)).get? l = some e) ∧
      (t.put loc (.file bytes)).get? loc = some (.file bytes) := by
  obtain ⟨name, parent, rfl, room⟩ := h.room
  refine ⟨fun l e here => ?_, by rw [get?_put room, if_pos rfl]⟩
  rw [get?_put room, if_neg, here]
  rintro rfl
  cases h.free.symm.trans here

theorem vacancy_of_followNames
    (afterLink : ∀ {dir name rest target}, IsName name → name.utf8ByteSize ≤ maxName →
      t.get? dir = some .directory → (∀ n ∈ rest, '/' ∉ n.toList) →
      t.get? (name :: dir) = some (.link target) →
      onLink (if isAbsolute target then [] else dir) (segments target ++ rest) = .ok (.vacant loc) →
      t.Vacancy links dir (name :: rest) loc)
    (inside : t.get? dir = some .directory) (plain : ∀ n ∈ names, '/' ∉ n.toList)
    (h : t.followNames true onLink dir names = .ok (.vacant loc)) :
    t.Vacancy links dir names loc := by
  induction names generalizing dir with
  | nil => cases h
  | cons name rest ih =>
    have others : ∀ n ∈ rest, '/' ∉ n.toList := fun n mem => plain n (by simp [mem])
    rcases name_cases name with dot | rfl | named
    · rw [followNames_dot dot] at h
      have next := ih inside others h
      exact { next with filled := fun t' bytes same new => .stay dot (next.filled t' bytes same new) }
    · rw [followNames_up] at h
      have next := ih (get?_tail inside) others h
      exact { next with filled := fun t' bytes same new => .up (next.filled t' bytes same new) }
    · obtain ⟨short, step⟩ := followNames_creating_cases named h
      rcases step with ⟨here, rfl, place⟩ | ⟨here, next⟩ | ⟨_, _, _, place⟩ | ⟨_, here, next⟩
      · cases place
        have room : t.Admits name dir := ⟨⟨named, plain name (by simp)⟩, inside, by simp [here]⟩
        exact ⟨⟨name, dir, rfl, room⟩, here, fun _ _ _ new => .file named short new⟩
      · have next := ih here others next
        exact { next with
          filled := fun t' bytes same new =>
            .down named short (same _ _ here) (next.filled t' bytes same new) }
      · cases place
      · exact afterLink named short inside others here next

theorem vacancy_of_follow (inside : t.get? dir = some .directory)
    (plain : ∀ n ∈ names, '/' ∉ n.toList)
    (h : t.follow true links dir names = .ok (.vacant loc)) : t.Vacancy links dir names loc := by
  induction links generalizing dir names with
  | zero => exact vacancy_of_followNames (by simp) inside plain h
  | succ links ih =>
    refine vacancy_of_followNames (fun {dir _ rest target} named short inside others here next => ?_)
      inside plain h
    have plain' : ∀ n ∈ segments target ++ rest, '/' ∉ n.toList := by
      intro n mem
      rcases List.mem_append.1 mem with mem | mem
      · exact plain_of_mem_segments mem
      · exact others n mem
    have next := ih (get?_target inside target) plain' next
    exact { next with
      filled := fun t' bytes same new =>
        .link named short (same _ _ here) (next.filled t' bytes same new) }

/-! ### Writes -/

/-- Where a write goes. -/
theorem writePlace_cases (h : t.writePlace path = .ok loc) :
    checkPath path = .ok () ∧
      ((t.Leads maxLinks (t.start path) (segments path) loc ∧
          ∃ bytes, t.get? loc = some (.file bytes)) ∨
        t.Vacancy maxLinks (t.start path) (segments path) loc) := by
  cases asked : checkPath path with
  | error cause => simp [writePlace, resolve, asked, bind, Except.bind] at h
  | ok _ =>
    refine ⟨rfl, ?_⟩
    cases followed : t.follow true maxLinks (t.start path) (segments path) with
    | error cause => simp [writePlace, resolve, asked, followed, bind, Except.bind] at h
    | ok place =>
      simp only [writePlace, resolve, asked, followed, bind, Except.bind] at h
      cases place with
      | vacant l =>
        obtain rfl := Except.ok.inj h
        exact .inr (vacancy_of_follow (t.get?_start path) (fun _ => plain_of_mem_segments) followed)
      | taken l =>
        dsimp only at h
        split at h
        · cases h
        · rename_i noDirectory
          obtain rfl := Except.ok.inj h
          have route := leads_of_follow (follow_of_creating followed)
          exact .inl ⟨route, (route.stands (t.get?_start path)).resolve_left noDirectory⟩

/-- After a write its path leads to a file that holds what was written. -/
theorem find_of_write (h : t.write path content = .ok t') :
    ∃ loc, t'.find path = .ok (.file loc content.toUTF8) := by
  obtain ⟨loc, place, -, rfl⟩ := write_eq_ok_iff.1 h
  obtain ⟨asked, found⟩ := writePlace_cases place
  refine ⟨loc, ?_⟩
  rw [find_eq_file_iff, resolve_eq_taken_iff, start_congr home_put]
  rcases found with ⟨route, bytes, here⟩ | vacancy
  · have alike := route.transfer fun _ found _ => exists_alike_put here content.toUTF8 found
    exact ⟨⟨asked, alike⟩, by rw [get?_put_file here, if_pos rfl]⟩
  · obtain ⟨same, new⟩ := vacancy.put content.toUTF8
    exact ⟨⟨asked, vacancy.filled _ _ same new⟩, new⟩

/-- A path to a file is written at the file. -/
theorem writePlace_of_find {loc' : Location} (found : t.find path = .ok (.file loc bytes))
    (place : t.writePlace path = .ok loc') : loc' = loc := by
  obtain ⟨resolved, here⟩ := find_eq_file_iff.1 found
  obtain ⟨-, route⟩ := resolve_eq_taken_iff.1 resolved
  obtain ⟨-, ⟨route', -⟩ | vacancy⟩ := writePlace_cases place
  · exact route'.unique route
  · -- once the place is filled, both are routes with the same names
    obtain ⟨same, new⟩ := vacancy.put bytes
    have route' := route.transfer fun _ here _ => ⟨_, same _ _ here, .refl _⟩
    exact (vacancy.filled _ _ same new).unique route'

end Expunge.FileTree
