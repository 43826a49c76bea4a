import Expunge.Proofs.Files.Linked
import Expunge.Proofs.Run.OneFile
import Expunge.Proofs.Run.Steps

/-!
# Files one after the other

A real run over different files is one change of the tree, `FileTree.treated`: every later file
still reads its first bytes, because only the entries of the earlier files have changed
(`find_treated`). So each file is reported as if it were the only one, the order does not matter
(`treated_perm`), and other bytes in one file, or other accesses that are refused there, are not seen
by the others (`treatFile_tampered`).
-/

namespace Expunge
set_option autoImplicit false
open Expunge.Path

namespace FileTree

/-- Where the file stands that a path leads to. -/
def fileAt? (t : FileTree) (path : String) : Option Location :=
  match t.find path with
  | .ok (.file loc _) => some loc
  | .ok (.directory _) | .error _ => none

/-- Paths of different files. -/
structure Batch (t : FileTree) (paths : List String) : Prop where
  spelled : ∀ path ∈ paths, EndsInName path
  found : ∀ path ∈ paths, ∃ loc bytes, t.find path = .ok (.file loc bytes)
  apart : (paths.map t.fileAt?).Nodup

/-- The tree after a real run over some files. -/
def treated (t : FileTree) (s : Settings) (paths : List String) : FileTree :=
  t.update fun loc e =>
    if some loc ∈ paths.map t.fileAt? then s.realFate (t.refusals loc) e else some e

variable {t t' : FileTree} {s : Settings} {mode : RunMode} {paths paths' : List String}
  {path : String} {loc : Location} {bytes : ByteArray}

theorem fileAt?_of_find (found : t.find path = .ok (.file loc bytes)) :
    t.fileAt? path = some loc := by
  rw [fileAt?, found]

theorem exists_find_of_fileAt? (h : t.fileAt? path = some loc) :
    ∃ bytes, t.find path = .ok (.file loc bytes) := by
  unfold fileAt? at h
  split at h
  · rename_i l bytes found
    exact ⟨bytes, Option.some.inj h ▸ found⟩
  · cases h
  · cases h

namespace Batch

/-- The first files of a batch, and the one after them. -/
theorem of_concat (h : t.Batch (paths ++ [path])) : t.Batch paths ∧
    ∃ loc bytes, t.find path = .ok (.file loc bytes) ∧ some loc ∉ paths.map t.fileAt? := by
  have apart := h.apart
  rw [List.map_append, List.nodup_append] at apart
  obtain ⟨front, -, other⟩ := apart
  obtain ⟨loc, bytes, found⟩ := h.found path (by simp)
  refine ⟨⟨fun p hp => h.spelled p (by simp [hp]), fun p hp => h.found p (by simp [hp]), front⟩,
    loc, bytes, found, fun mem => ?_⟩
  exact other _ mem (t.fileAt? path) (by simp) (fileAt?_of_find found).symm

theorem sublist (h : t.Batch paths) (part : paths'.Sublist paths) : t.Batch paths' where
  spelled p hp := h.spelled p (part.subset hp)
  found p hp := h.found p (part.subset hp)
  apart := h.apart.sublist (part.map _)

theorem perm (h : t.Batch paths) (order : paths'.Perm paths) : t.Batch paths' where
  spelled p hp := h.spelled p (order.mem_iff.1 hp)
  found p hp := h.found p (order.mem_iff.1 hp)
  apart := (order.map _).nodup_iff.2 h.apart

/-- Two paths of a batch for one file are the same. -/
theorem eq_of_fileAt? {p q : String} (h : t.Batch paths) (hp : p ∈ paths) (hq : q ∈ paths)
    (same : t.fileAt? p = t.fileAt? q) : p = q :=
  List.inj_on_of_nodup_map h.apart hp hq same

end Batch

/-! ### The tree after a run -/

theorem get?_treated (mem : path ∈ paths)
    (found : t.find path = .ok (.file loc bytes)) :
    (t.treated s paths).get? loc = s.realFate (t.refusals loc) (.file bytes) := by
  obtain ⟨name, dir, rfl, here⟩ := exists_name_of_find found
  have listed : some (name :: dir) ∈ paths.map t.fileAt? :=
    List.mem_map.2 ⟨path, mem, fileAt?_of_find found⟩
  simp only [treated, get?_update, here, Option.bind_some, Entry.settle, if_pos listed]

theorem get?_treated_of_not_mem (other : some loc ∉ paths.map t.fileAt?) :
    (t.treated s paths).get? loc = t.get? loc :=
  get?_update_of_eq_some fun _ => if_neg other

/-- What is no file is as before. -/
theorem get?_treated_of_no_file
    (noFile : ∀ bytes, t.get? loc ≠ some (.file bytes)) :
    (t.treated s paths).get? loc = t.get? loc := by
  refine get?_treated_of_not_mem fun mem => ?_
  obtain ⟨path, -, at_loc⟩ := List.mem_map.1 mem
  obtain ⟨bytes, found⟩ := exists_find_of_fileAt? at_loc
  exact noFile bytes (get?_of_find_eq_file found)

/-- A later file still has its first bytes. -/
theorem find_treated (found : t.find path = .ok (.file loc bytes))
    (later : some loc ∉ paths.map t.fileAt?) :
    (t.treated s paths).find path = .ok (.file loc bytes) := by
  have here := get?_of_find_eq_file found
  refine find_of_agree found rfl (fun l noFile => get?_treated_of_no_file noFile) ?_
  rw [get?_treated_of_not_mem later, here]

theorem LinkFree.treated (free : t.LinkFree) : (t.treated s paths).LinkFree := by
  apply free.update
  intro l e e' changed link
  split at changed
  · exact Settings.isLink_of_realFate changed link
  · rwa [← Option.some.inj changed]

/-- Directories stay anyway. -/
theorem settle_realFate (refused : Refusals) (e : Entry) :
    e.settle (s.realFate refused) = s.realFate refused e := by
  cases e <;> rfl

/-- One file more is one change more. -/
theorem updateAt_treated (found : t.find path = .ok (.file loc bytes))
    (later : some loc ∉ paths.map t.fileAt?) :
    (t.treated s paths).updateAt loc (s.realFate (t.refusals loc)) =
      t.treated s (paths ++ [path]) := by
  rw [treated, updateAt, update_update, treated]
  refine congrArg t.update (funext₂ fun l e => ?_)
  rw [List.map_append, List.map_singleton, fileAt?_of_find found]
  by_cases here : l = loc
  · subst here
    simp only [if_neg later, Option.bind_some, if_pos, settle_realFate]
    rw [if_pos (by simp)]
  · have other : some l ∉ [some loc] := by simpa using here
    have listed : some l ∈ paths.map t.fileAt? ++ [some loc] ↔ some l ∈ paths.map t.fileAt? := by
      rw [List.mem_append, or_iff_left other]
    have untouched : Entry.settle (fun e => if l = loc then s.realFate (t.refusals loc) e else some e) =
        some := by
      funext e
      simp only [if_neg here, Entry.settle_some]
    rw [untouched, Option.bind_fun_some]
    simp only [listed]

theorem treated_perm (order : paths'.Perm paths) : t.treated s paths' = t.treated s paths := by
  have same : ∀ l, some l ∈ paths'.map t.fileAt? ↔ some l ∈ paths.map t.fileAt? :=
    fun _ => (order.map _).mem_iff
  simp only [treated, same]

/-- Without one file, every other place is left the same. -/
theorem get?_treated_erase (found : t.find path = .ok (.file loc bytes)) {l : Location}
    (apart : l ≠ loc) :
    (t.treated s (paths.erase path)).get? l = (t.treated s paths).get? l := by
  have same : some l ∈ (paths.erase path).map t.fileAt? ↔ some l ∈ paths.map t.fileAt? := by
    rw [List.mem_map, List.mem_map]
    constructor
    · rintro ⟨p, mem, place⟩
      exact ⟨p, List.mem_of_mem_erase mem, place⟩
    · rintro ⟨p, mem, place⟩
      have different : p ≠ path := by
        rintro rfl
        rw [fileAt?_of_find found, Option.some.injEq] at place
        exact apart place.symm
      exact ⟨p, (List.mem_erase_of_ne different).2 mem, place⟩
  cases l with
  | nil => rfl
  | cons name dir => simp only [treated, get?_update, same]

/-! ### Processing a batch -/

/-- A real run over a batch reports each file as if it were the only one. -/
theorem treatFiles_eq (free : t.LinkFree) (batch : t.Batch paths) (real : mode.dryRun = false)
    (start : Summary) :
    treatFiles s mode paths (start, t) =
      ((paths.map fun path => (treatFile t path s mode).1).foldl Summary.add start,
        t.treated s paths) := by
  -- the files that were processed have changed, and those that are left have not
  induction paths using List.reverseRecOn with
  | nil => simp [treatFiles, treated, update_some]
  | append_singleton paths path ih =>
    obtain ⟨front, loc, bytes, found, later⟩ := batch.of_concat
    have spelled := batch.spelled path (by simp)
    have first : treatFile t path s mode = (s.realReport mode (t.refusals loc) path bytes,
        t.updateAt loc (s.realFate (t.refusals loc))) :=
      treatFile_eq free spelled found real
    have now : treatFile (t.treated s paths) path s mode =
        (s.realReport mode (t.refusals loc) path bytes,
          (t.treated s paths).updateAt loc (s.realFate (t.refusals loc))) :=
      treatFile_eq free.treated spelled (find_treated found later) real
    rw [treatFiles_concat, ih front]
    simp only [now, updateAt_treated found later, List.map_append, List.map_singleton,
      List.foldl_append, List.foldl_cons, List.foldl_nil, first]

/-! ### Another file in the place of one -/

/-- The tree with other bytes in a file, and with other accesses refused there. -/
def tampered (t : FileTree) (loc : Location) (bytes : ByteArray) (refused : Refusals) : FileTree :=
  { t.put loc (.file bytes) with refusals := fun l => if l = loc then refused else t.refusals l }

variable {bytes' : ByteArray} {refused : Refusals}

theorem LinkFree.tampered (free : t.LinkFree) (found : t.find path = .ok (.file loc bytes)) :
    (t.tampered loc bytes' refused).LinkFree := by
  obtain ⟨name, dir, rfl, here⟩ := exists_name_of_find found
  show (t.put (name :: dir) (.file bytes')).LinkFree
  rw [put_eq_updateAt here]
  apply free.update
  intro l e e' changed link
  split at changed
  · rw [← Option.some.inj changed]
    rfl
  · rwa [← Option.some.inj changed]

/-- Files are found where they were. -/
theorem find_tampered (found : t.find path = .ok (.file loc bytes)) {other : String} {l : Location}
    {b : ByteArray} (elsewhere : t.find other = .ok (.file l b)) :
    (t.tampered loc bytes' refused).find other =
      .ok (.file l (if l = loc then bytes' else b)) := by
  have same : (t.tampered loc bytes' refused).entries.Perm (t.put loc (.file bytes')).entries :=
    .refl _
  rw [find_of_perm same rfl, find_put (get?_of_find_eq_file found) bytes' elsewhere]

theorem map_fileAt?_tampered (batch : t.Batch paths)
    (found : t.find path = .ok (.file loc bytes)) :
    paths.map (t.tampered loc bytes' refused).fileAt? = paths.map t.fileAt? := by
  apply List.map_congr_left
  intro other mem
  obtain ⟨l, b, elsewhere⟩ := batch.found other mem
  rw [fileAt?_of_find (find_tampered found elsewhere), fileAt?_of_find elsewhere]

theorem Batch.tampered (batch : t.Batch paths) (found : t.find path = .ok (.file loc bytes)) :
    (t.tampered loc bytes' refused).Batch paths where
  spelled := batch.spelled
  found other mem := by
    obtain ⟨l, b, elsewhere⟩ := batch.found other mem
    exact ⟨l, _, find_tampered found elsewhere⟩
  apart := map_fileAt?_tampered batch found ▸ batch.apart

/-- A run leaves the same at every other place. -/
theorem get?_treated_tampered (batch : t.Batch paths)
    (found : t.find path = .ok (.file loc bytes)) {l : Location} (apart : l ≠ loc) :
    ((t.tampered loc bytes' refused).treated s paths).get? l = (t.treated s paths).get? l := by
  have same : (t.tampered loc bytes' refused).get? l = t.get? l := by
    show (t.put loc (.file bytes')).get? l = t.get? l
    rw [get?_put_file (get?_of_find_eq_file found), if_neg apart]
  have refusals : (t.tampered loc bytes' refused).refusals l = t.refusals l := if_neg apart
  rw [treated, treated, get?_update, get?_update, same, refusals, map_fileAt?_tampered batch found]

/-- Another file is reported the same. -/
theorem treatFile_tampered (free : t.LinkFree) (batch : t.Batch paths) (real : mode.dryRun = false)
    (mem : path ∈ paths) (found : t.find path = .ok (.file loc bytes)) {other : String}
    (mem' : other ∈ paths) (different : other ≠ path) :
    (treatFile (t.tampered loc bytes' refused) other s mode).1 = (treatFile t other s mode).1 := by
  obtain ⟨l, b, elsewhere⟩ := batch.found other mem'
  have spelled := batch.spelled other mem'
  have apart : l ≠ loc := by
    intro same
    refine different (batch.eq_of_fileAt? mem' mem ?_)
    rw [fileAt?_of_find elsewhere, fileAt?_of_find found, same]
  have same : (t.tampered loc bytes' refused).find other =
      .ok (.file l (if l = loc then bytes' else b)) := find_tampered found elsewhere
  rw [if_neg apart] at same
  have refusals : (t.tampered loc bytes' refused).refusals l = t.refusals l := if_neg apart
  rw [treatFile_eq free spelled elsewhere real, treatFile_eq (free.tampered found) spelled same real,
    refusals]

end FileTree
end Expunge
