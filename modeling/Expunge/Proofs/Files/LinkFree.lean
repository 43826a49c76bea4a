import Expunge.Files.Access
import Expunge.Proofs.Files.Route
import Mathlib.Data.List.Induction

/-!
# Trees without links

Where no link is on the way, a path that ends in a name leads from the directory before it to the
entry of that name. So reading, writing and deleting mean one location (`namedPlace_join`,
`writePlace_join`), and what is below a directory is where its names say (`eq_of_resolve_below`).
-/

namespace Expunge
set_option autoImplicit false
open Expunge.Path

/-- The entry is a symbolic link. -/
def Entry.isLink : Entry → Bool
  | link _ => true
  | file _ | directory => false

namespace FileTree

/-- No entry is a symbolic link. -/
def LinkFree (t : FileTree) : Prop := ∀ e ∈ t.entries, e.2.isLink = false

instance (t : FileTree) : Decidable t.LinkFree :=
  inferInstanceAs (Decidable (∀ e ∈ t.entries, e.2.isLink = false))

theorem LinkFree.get?_ne_link {t : FileTree} (free : t.LinkFree) (loc : Location)
    (target : String) : t.get? loc ≠ some (.link target) := by
  intro h
  cases loc with
  | nil => simp at h
  | cons name dir =>
    have := free _ (get?_eq_some_iff.1 h)
    simp [Entry.isLink] at this

variable {t : FileTree} {links : Nat} {dir loc : Location} {name : FileName}
  {names : List FileName} {directory : String} {bytes : ByteArray}

/-- One name leads to its entry. -/
theorem Leads.eq_of_name (free : t.LinkFree) (named : IsName name)
    (h : t.Leads links dir [name] loc) : loc = name :: dir ∧ name.utf8ByteSize ≤ maxName := by
  cases h with
  | stay dot next => exact absurd dot (not_or.2 ⟨named.some, named.notDot⟩)
  | up next => exact absurd rfl named.notUp
  | down _ short here next =>
    cases next
    exact ⟨rfl, short⟩
  | file _ short here => exact ⟨rfl, short⟩
  | link _ short here next => exact absurd here (free.get?_ne_link _ _)

/-- Where a name ends the path, a place for it need not be made. -/
theorem Leads.follow_creating (free : t.LinkFree) (named : IsName name)
    (h : t.Leads links dir (names ++ [name]) loc) :
    t.follow true links dir (names ++ [name]) = .ok (.taken loc) := by
  induction names generalizing dir with
  | nil =>
    rw [List.nil_append] at h ⊢
    cases h with
    | stay dot next => exact absurd dot (not_or.2 ⟨named.some, named.notDot⟩)
    | up next => exact absurd rfl named.notUp
    | down _ short here next =>
      cases next
      rw [follow_directory named short (by simp) here, follow_nil]
    | file _ short here => exact follow_file named short here
    | link _ _ here next => exact absurd here (free.get?_ne_link _ _)
  | cons n names ih =>
    have some : ¬ ((names ++ [name]).all (· = "") = true) := by simp [named.some]
    rw [List.cons_append] at h ⊢
    generalize e : names ++ [name] = rest at h ih some ⊢
    cases h with
    | stay dot next => rw [follow_dot dot, ih next]
    | up next => rw [follow_up, ih next]
    | down named' short here next =>
      rw [follow_directory named' short (fun h => some h.2.2) here, ih next]
    | file _ _ here => simp at e
    | link _ _ here next => exact absurd here (free.get?_ne_link _ _)

/-- What is found below a directory stands where its names say. -/
theorem eq_of_resolve_below (free : t.LinkFree) {rel : RelPath} {top : Location}
    (named : ∀ name ∈ rel, IsFileName name)
    (root : t.resolve false directory = .ok (.taken top)) (some : directory ≠ "")
    (h : t.resolve false (below directory rel) = .ok (.taken loc)) : loc = rel.reverse ++ top := by
  induction rel using List.reverseRecOn generalizing loc with
  | nil =>
    rw [below_nil, root, Except.ok.injEq, Place.taken.injEq] at h
    exact h.symm
  | append_singleton rel name ih =>
    rw [below_append] at h
    obtain ⟨around, _, found, last⟩ :=
      exists_resolve_directory (named name (by simp)) (below_ne_empty some rel) h
    obtain ⟨rfl, -⟩ := last.eq_of_name free (named name (by simp)).toIsName
    rw [ih (fun n hn => named n (by simp [hn])) found, List.reverse_append]
    rfl

/-- Names lead through directories, as long as they go on. -/
theorem Leads.get?_of_names (free : t.LinkFree) {rel rest : List FileName}
    (named : ∀ n ∈ rel, IsName n) (here : t.get? dir = some .directory)
    (h : t.Leads links dir (rel ++ name :: rest) loc) :
    t.get? (rel.reverse ++ dir) = some .directory := by
  induction rel generalizing dir with
  | nil => exact here
  | cons n rel ih =>
    rcases h.entry_cases (named n (by simp)) with ⟨inner, next⟩ | ⟨_, _, ended, _⟩ | ⟨_, _, link, _⟩
    · rw [List.reverse_cons, List.append_assoc]
      exact ih (fun n h => named n (by simp [h])) inner next
    · simp at ended
    · exact absurd link (free.get?_ne_link _ _)

/-- A path that goes on below a directory goes through directories, where their names say. -/
theorem find_below_of_resolve (free : t.LinkFree) {rel : RelPath} {top : Location}
    (named : ∀ n ∈ rel ++ [name], IsFileName n)
    (root : t.find directory = .ok (.directory top)) (some : directory ≠ "")
    (h : t.resolve false (below directory (rel ++ [name])) = .ok (.taken loc)) :
    t.find (below directory rel) = .ok (.directory (rel.reverse ++ top)) := by
  obtain ⟨resolved, here⟩ := find_eq_directory_iff.1 root
  have inner : ∀ n ∈ rel, IsFileName n := fun n h => named n (by simp [h])
  cases e : rel ++ [name] with
  | nil => simp at e
  | cons first others =>
    rw [e] at h named
    obtain ⟨top', links, resolved', route⟩ := exists_resolve_below some named h
    obtain rfl : top = top' := by simpa [resolved] using resolved'
    have directory := Leads.get?_of_names free (fun n h => (inner n h).toIsName) here (e ▸ route)
    rw [← e, below_append] at h
    obtain ⟨around, _, found, -⟩ := exists_resolve_directory (named name (by simp [← e]))
      (below_ne_empty some rel) h
    obtain rfl := eq_of_resolve_below free inner resolved some found
    exact find_eq_directory_iff.2 ⟨found, directory⟩

/-- The last name of a path, and what stands before it. -/
theorem splitLast_eq {path : String} (some : name ≠ "") (h : segments path = names ++ [name]) :
    splitLast path = (names, name, false) := by
  simp [splitLast, h, some]

/-- A found file is deleted by the path at which it was found. -/
theorem namedPlace_join (free : t.LinkFree) (named : IsFileName name)
    (some : directory ≠ "") (found : t.find (join directory name) = .ok (.file loc bytes)) :
    t.namedPlace (join directory name) = .ok loc := by
  obtain ⟨resolved, here⟩ := find_eq_file_iff.1 found
  obtain ⟨names, around, _, joined, -, asked, -, routes, last⟩ := exists_route named some resolved
  obtain ⟨rfl, short⟩ := last.eq_of_name free named.toIsName
  have followed := (routes ["."] (by simp)).follow_eq
  have ordinary : ¬ (name = "" ∨ name = "." ∨ name = "..") :=
    fun h => h.elim named.some fun h => h.elim named.notDot named.notUp
  simp [namedPlace, asked, splitLast_eq named.some joined, start_join t some, followed, ordinary,
    Nat.not_lt.2 short, here, bind, Except.bind]

/-- A found file is written by the path at which it was found. -/
theorem writePlace_join (free : t.LinkFree) (named : IsFileName name)
    (some : directory ≠ "") (found : t.find (join directory name) = .ok (.file loc bytes)) :
    t.writePlace (join directory name) = .ok loc := by
  obtain ⟨resolved, here⟩ := find_eq_file_iff.1 found
  obtain ⟨names, _, _, joined, -, asked, route, -⟩ := exists_route named some resolved
  have followed := route.follow_creating free named.toIsName
  simp [writePlace, resolve, asked, joined, start_join t some, followed, here, bind, Except.bind]

end FileTree
end Expunge
