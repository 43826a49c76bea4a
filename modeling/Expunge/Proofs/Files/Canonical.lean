import Expunge.Proofs.Files.Linked

/-!
# Real paths

A path has a real path if it leads somewhere and no entry that is looked up on the way has a path
without links that is too long (`canonicalize_eq_ok_iff`). Only directories and links on the way
matter, so real paths are the same in a reduced tree, and in a tree of short paths every path that
leads somewhere has one (`canonicalize_of_short`).
-/

namespace Expunge.FileTree
set_option autoImplicit false
open Expunge.Path

variable {t t' : FileTree} {links : Nat} {dir loc : Location} {name : FileName}
  {names rest : List FileName} {path : String} {found : Found}
  {onLink : Location → List FileName → Bool}

/-- The path leads somewhere, and its real path can be asked for. -/
theorem canonicalize_eq_ok_iff : t.canonicalize path = .ok loc ↔
    ∃ found, t.find path = .ok found ∧ found.loc = loc ∧
      t.traces maxLinks (t.start path) (segments path) = true := by
  cases here : t.find path with
  | error cause => simp [canonicalize, here, bind, Except.bind]
  | ok found =>
    by_cases traced : t.traces maxLinks (t.start path) (segments path) = true <;>
      simp [canonicalize, here, traced, bind, Except.bind]

theorem canonicalize_of_find (here : t.find path = .ok found) : t.canonicalize path =
    if t.traces maxLinks (t.start path) (segments path) then .ok found.loc
    else .error .nameTooLong := by
  rw [canonicalize, here]
  rfl

/-! ### One step of a trace -/

theorem tracesNames_dot (dot : name = "" ∨ name = ".") :
    t.tracesNames onLink dir (name :: rest) = t.tracesNames onLink dir rest := by
  rw [tracesNames, if_pos dot]

theorem tracesNames_up :
    t.tracesNames onLink dir (".." :: rest) = t.tracesNames onLink dir.tail rest := by
  rw [tracesNames, if_neg (by decide), if_pos rfl]

theorem tracesNames_name (named : IsName name) : t.tracesNames onLink dir (name :: rest) =
    if maxPath ≤ pathSize (name :: dir) then false
    else
      match t.get? (name :: dir) with
      | some .directory => t.tracesNames onLink (name :: dir) rest
      | some (.link target) =>
        onLink (if isAbsolute target then [] else dir) (segments target ++ rest)
      | some (.file _) | none => true := by
  have notDot : ¬ (name = "" ∨ name = ".") := fun h => h.elim named.some named.notDot
  exact (if_neg notDot).trans (if_neg named.notUp)

/-- What is asked at a link, when so many links may be met. -/
theorem exists_traces_eq (t : FileTree) (links : Nat) :
    ∃ onLink, t.traces links = t.tracesNames onLink := by
  cases links with
  | zero => exact ⟨_, rfl⟩
  | succ links => exact ⟨_, rfl⟩

theorem traces_nil : t.traces links dir [] = true := by
  obtain ⟨onLink, e⟩ := exists_traces_eq t links
  rw [e, tracesNames]

theorem traces_dot (dot : name = "" ∨ name = ".") :
    t.traces links dir (name :: rest) = t.traces links dir rest := by
  obtain ⟨onLink, e⟩ := exists_traces_eq t links
  rw [e, tracesNames_dot dot]

theorem traces_up : t.traces links dir (".." :: rest) = t.traces links dir.tail rest := by
  obtain ⟨onLink, e⟩ := exists_traces_eq t links
  rw [e, tracesNames_up]

theorem traces_directory (named : IsName name) (here : t.get? (name :: dir) = some .directory) :
    t.traces links dir (name :: rest) =
      if maxPath ≤ pathSize (name :: dir) then false else t.traces links (name :: dir) rest := by
  obtain ⟨onLink, e⟩ := exists_traces_eq t links
  rw [e, tracesNames_name named, here]

theorem traces_file {bytes : ByteArray} (named : IsName name)
    (here : t.get? (name :: dir) = some (.file bytes)) :
    t.traces links dir (name :: rest) =
      if maxPath ≤ pathSize (name :: dir) then false else true := by
  obtain ⟨onLink, e⟩ := exists_traces_eq t links
  rw [e, tracesNames_name named, here]

theorem traces_link {target : String} (named : IsName name)
    (here : t.get? (name :: dir) = some (.link target)) :
    t.traces (links + 1) dir (name :: rest) =
      if maxPath ≤ pathSize (name :: dir) then false
      else t.traces links (if isAbsolute target then [] else dir) (segments target ++ rest) := by
  rw [traces, tracesNames_name named, here]

/-! ### Fewer files -/

/-- A route in a part of a tree is traced as it is in the tree. -/
theorem Leads.traces_eq (h : t'.Leads links dir names loc)
    (part : ∀ l e, t'.get? l = some e → ∃ e', t.get? l = some e' ∧ e.Alike e') :
    t'.traces links dir names = t.traces links dir names := by
  induction h with
  | arrived => rw [traces_nil, traces_nil]
  | stay dot _ ih => rw [traces_dot dot, traces_dot dot, ih]
  | up _ ih => rw [traces_up, traces_up, ih]
  | down named _ here _ ih =>
    obtain ⟨e, before, like⟩ := part _ _ here
    cases like
    rw [traces_directory named here, traces_directory named before, ih]
  | file named _ here =>
    obtain ⟨e, before, like⟩ := part _ _ here
    cases like with
    | refl => rw [traces_file named here, traces_file named before]
    | file _ bytes => rw [traces_file named here, traces_file named before]
  | link named _ here _ ih =>
    obtain ⟨e, before, like⟩ := part _ _ here
    cases like
    rw [traces_link named here, traces_link named before, ih]

/-- A directory has the real path that it had. -/
theorem Reduces.canonicalize_eq (h : t.Reduces t') (here : t.find path = .ok (.directory loc)) :
    t'.canonicalize path = t.canonicalize path := by
  have here' := h.find_directory_iff.2 here
  obtain ⟨resolved, -⟩ := find_eq_directory_iff.1 here'
  obtain ⟨-, route⟩ := resolve_eq_taken_iff.1 resolved
  rw [canonicalize_of_find here, canonicalize_of_find here', route.traces_eq h.part,
    start_congr h.home]

/-! ### Trees of short paths -/

/-- The path without links of every entry can be asked for. -/
def IsShort (t : FileTree) : Prop := ∀ e ∈ t.entries, pathSize e.1 < maxPath

instance (t : FileTree) : Decidable t.IsShort :=
  inferInstanceAs (Decidable (∀ e ∈ t.entries, pathSize e.1 < maxPath))

theorem IsShort.not_le (short : t.IsShort) {e : Entry} (here : t.get? (name :: dir) = some e) :
    ¬ maxPath ≤ pathSize (name :: dir) :=
  Nat.not_le.2 (short _ (get?_eq_some_iff.1 here))

theorem Leads.traces_of_short (h : t.Leads links dir names loc) (short : t.IsShort) :
    t.traces links dir names = true := by
  induction h with
  | arrived => exact traces_nil
  | stay dot _ ih => rw [traces_dot dot, ih]
  | up _ ih => rw [traces_up, ih]
  | down named _ here _ ih => rw [traces_directory named here, if_neg (short.not_le here), ih]
  | file named _ here => rw [traces_file named here, if_neg (short.not_le here)]
  | link named _ here _ ih => rw [traces_link named here, if_neg (short.not_le here), ih]

/-- What is found has a real path. -/
theorem canonicalize_of_short (short : t.IsShort) (here : t.find path = .ok found) :
    t.canonicalize path = .ok found.loc := by
  obtain ⟨-, route⟩ := resolve_eq_taken_iff.1 (resolve_of_find here)
  rw [canonicalize_of_find here, if_pos (route.traces_of_short short)]

end Expunge.FileTree
