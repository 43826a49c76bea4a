import Expunge.Files.Resolve
import Expunge.Proofs.Text.Lines

/-!
# How paths are spelled

The parts of a path that is joined from a directory and a name (`exists_segments_join`) or that
leads some names below a root (`exists_segments_below`), and what a path that can be asked for tells
of the directory in front of it.
-/

namespace Expunge
set_option autoImplicit false
open Expunge.Path

namespace Path

variable {directory name path : String}

/-- A path behind a separator has its parts behind those before the separator. -/
theorem segments_of_toList_eq (before after : List Char)
    (h : path.toList = before ++ '/' :: after) :
    segments path = (before.splitOn '/').map String.ofList ++
      (after.splitOn '/').map String.ofList := by
  rw [segments, h, List.splitOn_append_cons_self, List.map_append]

/-- A name without a separator is one part. -/
theorem splitOn_of_plain (plain : '/' ∉ name.toList) :
    (name.toList.splitOn '/').map String.ofList = [name] := by
  rw [List.splitOn_eq_singleton plain, List.map_singleton, String.ofList_toList]

/-- The parts of a path that is put together from names. -/
theorem segments_intercalate {names : List FileName} (some : names ≠ [])
    (plain : ∀ name ∈ names, '/' ∉ name.toList) : segments ("/".intercalate names) = names := by
  have pieces : ∀ piece ∈ names.map String.toList, '/' ∉ piece := by
    simpa only [List.forall_mem_map] using plain
  rw [segments, String.toList_intercalate]
  exact (congrArg _ (List.splitOn_intercalate '/' pieces (by simpa using some))).trans (by simp)

/-- Names make a relative path. -/
theorem isAbsolute_intercalate {names : List FileName} (some : name ≠ "")
    (plain : '/' ∉ name.toList) : isAbsolute ("/".intercalate (name :: names)) = false := by
  obtain ⟨c, cs, first⟩ := List.exists_cons_of_ne_nil fun h => some (String.toList_eq_nil_iff.1 h)
  have other : c ≠ '/' := by
    rintro rfl
    exact plain (first ▸ List.mem_cons_self)
  rw [isAbsolute, String.toList_intercalate, List.map_cons, first]
  cases names <;> simp [List.intercalate_cons_cons, other]

/-- A separator at the end of a path adds an empty part, and a name takes its place. -/
theorem exists_segments_join (some : directory ≠ "") (plain : '/' ∉ name.toList) :
    ∃ names, names ≠ [] ∧ segments (join directory name) = names ++ [name] ∧
      (segments directory = names ∨ segments directory = names ++ [""]) := by
  have parts : ∀ cs : List Char, (cs.splitOn '/').map String.ofList ≠ [] := fun cs none =>
    List.splitOn_ne_nil '/' cs (List.map_eq_nil_iff.1 none)
  have nonempty : directory.isEmpty = false := by simpa using some
  simp only [join, nonempty, Bool.false_eq_true, if_false]
  split
  · rename_i slash
    obtain ⟨cs, e⟩ := List.getLast?_eq_some_iff.1 slash
    refine ⟨(cs.splitOn '/').map String.ofList, parts cs, ?_, .inr ?_⟩
    · rw [segments_of_toList_eq cs name.toList
        (by rw [String.toList_append, e, List.append_assoc, List.singleton_append]),
        splitOn_of_plain plain]
    · rw [segments_of_toList_eq cs [] e]
      rfl
  · refine ⟨segments directory, parts _, ?_, .inl rfl⟩
    rw [segments_of_toList_eq directory.toList name.toList
      (by simp [String.toList_append]), splitOn_of_plain plain, segments]

/-- A joined path starts with its directory. -/
theorem exists_join_eq_append (some : directory ≠ "") (name : String) :
    ∃ rest, join directory name = directory ++ rest := by
  have nonempty : directory.isEmpty = false := by simpa using some
  simp only [join, nonempty, Bool.false_eq_true, if_false]
  split
  · exact ⟨name, rfl⟩
  · exact ⟨"/" ++ name, by rw [String.append_assoc]⟩

theorem join_ne_empty (some : directory ≠ "") : join directory name ≠ "" := by
  obtain ⟨rest, e⟩ := exists_join_eq_append some name
  rw [e]
  intro empty
  have := congrArg String.toList empty
  rw [String.toList_append] at this
  exact some (String.toList_eq_nil_iff.1 (List.append_eq_nil_iff.1 this).1)

theorem isAbsolute_append (some : directory ≠ "") (behind : String) :
    isAbsolute (directory ++ behind) = isAbsolute directory := by
  obtain ⟨c, cs, first⟩ := List.exists_cons_of_ne_nil fun h => some (String.toList_eq_nil_iff.1 h)
  simp [isAbsolute, String.toList_append, first]

theorem isAbsolute_join (some : directory ≠ "") :
    isAbsolute (join directory name) = isAbsolute directory := by
  obtain ⟨rest, e⟩ := exists_join_eq_append some name
  rw [e, isAbsolute_append some]

theorem below_ne_empty (some : directory ≠ "") (rel : RelPath) : below directory rel ≠ "" := by
  induction rel generalizing directory with
  | nil => exact some
  | cons name rel ih => exact ih (join_ne_empty some)

/-- The names below a directory are the last parts of their path. -/
theorem exists_segments_below {rel : RelPath} (some : directory ≠ "")
    (named : ∀ n ∈ name :: rel, IsFileName n) :
    ∃ names, segments (below directory (name :: rel)) = names ++ name :: rel ∧
      (segments directory = names ∨ segments directory = names ++ [""]) := by
  induction rel generalizing directory name with
  | nil =>
    obtain ⟨names, -, joined, alone⟩ := exists_segments_join some (named name (by simp)).plain
    exact ⟨names, joined, alone⟩
  | cons next rel ih =>
    have first := named name (by simp)
    obtain ⟨names, -, joined, alone⟩ := exists_segments_join some first.plain
    obtain ⟨names', all, front⟩ :=
      ih (join_ne_empty some) fun n h => named n (List.mem_cons_of_mem _ h)
    refine ⟨names, ?_, alone⟩
    rw [joined] at front
    rcases front with rfl | slash
    · rw [List.append_assoc] at all
      exact all
    · -- a name is no empty part
      exact absurd (List.append_inj' slash rfl).2 (by simp [first.some])

/-- A joined path has its name as one more component. -/
theorem components_join (some : directory ≠ "") (named : IsFileName name) :
    components (join directory name) = components directory ++ [name] := by
  obtain ⟨names, front, joined, alone⟩ := exists_segments_join some named.plain
  have steps : (names ++ [name]).filter (fun s => s ≠ "" ∧ s ≠ ".") =
      (segments directory).filter (fun s => s ≠ "" ∧ s ≠ ".") ++ [name] := by
    rcases alone with alone | alone <;> simp [alone, named.some, named.notDot]
  have head : (names ++ [name]).head? = (segments directory).head? := by
    obtain ⟨first, rest, rfl⟩ := List.exists_cons_of_ne_nil front
    rcases alone with alone | alone <;> rw [alone] <;> rfl
  simp only [components, joined, steps, head, isAbsolute_join some]
  split
  · rfl
  · split <;> rfl

/-- The components of a path below a directory are those of the directory and the names. -/
theorem components_below {rel : RelPath} (some : directory ≠ "")
    (named : ∀ n ∈ rel, IsFileName n) :
    components (below directory rel) = components directory ++ rel := by
  induction rel generalizing directory with
  | nil => simp
  | cons name rel ih =>
    show components (below (join directory name) rel) = _
    rw [ih (join_ne_empty some) fun n h => named n (List.mem_cons_of_mem _ h),
      components_join some (named name List.mem_cons_self), List.append_assoc]
    rfl

/-- From a directory, what is below it reads as its names. -/
theorem relativeTo_below {rel : RelPath} (some : directory ≠ "")
    (named : ∀ n ∈ rel, IsFileName n) :
    relativeTo directory (below directory rel) = "/".intercalate rel := by
  rw [relativeTo, components_below some named, if_pos, List.drop_left]
  exact List.isPrefixOf_iff_prefix.2 (List.prefix_append ..)

/-- A path that names an entry of a directory. -/
def EndsInName (path : String) : Prop :=
  ∃ directory name, directory ≠ "" ∧ IsFileName name ∧ path = join directory name

/-- What is below a directory ends in a name. -/
theorem endsInName_below {rel : RelPath} (some : directory ≠ "")
    (named : ∀ name ∈ rel, IsFileName name) (proper : rel ≠ []) :
    EndsInName (below directory rel) := by
  obtain ⟨names, last, rfl⟩ : ∃ names last, rel = names ++ [last] :=
    ⟨_, _, (List.dropLast_concat_getLast proper).symm⟩
  exact ⟨below directory names, last, below_ne_empty some names, named last (by simp),
    below_append directory names last⟩

end Path

namespace FileTree

/-- A path can be asked for if it is not empty, is not too long and holds no end mark. -/
theorem checkPath_eq_ok_iff {path : String} : checkPath path = .ok () ↔
    '\x00' ∉ path.toList ∧ path ≠ "" ∧ path.utf8ByteSize < maxPath := by
  simp only [checkPath]
  split
  · simp_all
  · split
    · simp_all
    · split
      · simp
        omega
      · simp_all

/-- With a path its directory can be asked for. -/
theorem checkPath_of_join {directory name : String} (some : directory ≠ "")
    (h : checkPath (join directory name) = .ok ()) : checkPath directory = .ok () := by
  obtain ⟨rest, e⟩ := exists_join_eq_append some name
  rw [checkPath_eq_ok_iff, e, String.toList_append, String.utf8ByteSize_append] at h
  obtain ⟨plain, -, short⟩ := h
  exact checkPath_eq_ok_iff.2 ⟨fun nul => plain (List.mem_append_left _ nul), some, by omega⟩

theorem start_join (t : FileTree) {directory name : String} (some : directory ≠ "") :
    t.start (join directory name) = t.start directory := by
  rw [start, start, isAbsolute_join some]

/-- With a path every directory that it goes through can be asked for. -/
theorem checkPath_of_below {directory : String} {rel : RelPath} (some : directory ≠ "")
    (h : checkPath (below directory rel) = .ok ()) : checkPath directory = .ok () := by
  induction rel generalizing directory with
  | nil => exact h
  | cons name rel ih => exact checkPath_of_join some (ih (join_ne_empty some) h)

theorem start_below (t : FileTree) {directory : String} (rel : RelPath) (some : directory ≠ "") :
    t.start (below directory rel) = t.start directory := by
  induction rel generalizing directory with
  | nil => rfl
  | cons name rel ih => exact (ih (join_ne_empty some)).trans (t.start_join some)

end FileTree
end Expunge
