import Expunge.Proofs.Run.Preview

/-!
# One found file, links or not

A file that is found is told of by its bytes, by a dry run and by a real one that does not fail
(`treatFile_dry_eq`, `treatFile_real_cases`). What a real run makes of the tree is `Carried`: it
takes the last entry of the path away or writes to the file, so the tree is reduced and other files
are found as before.
-/

namespace Expunge
set_option autoImplicit false
open FileTree

variable {t t' : FileTree} {path other : String} {loc l : Location} {bytes b : ByteArray}
  {s : Settings} {mode : RunMode} {left : Option Entry}

/-- What a tree becomes when `left` is to be left of the file that a path leads to. -/
inductive Carried (t : FileTree) (path : String) (loc : Location) (bytes : ByteArray) :
    Option Entry → FileTree → Prop
  | kept : Carried t path loc bytes (some (.file bytes)) t
  | taken {name : FileName} {dir : Location} (place : t.namedPlace path = .ok (name :: dir))
      (last : t.LastEntry name dir loc) :
      Carried t path loc bytes none (t.erase (name :: dir))
  | written (bytes' : ByteArray) :
      Carried t path loc bytes (some (.file bytes')) (t.put loc (.file bytes'))

section
variable (found : t.find path = .ok (.file loc bytes))
include found

/-- A decision that is carried out on a found file. -/
theorem carried_of_perform {d : Decision} (done : d.perform t path = .ok t') :
    Carried t path loc bytes (d.left (.file bytes)) t' := by
  cases d with
  | keep =>
    cases done
    exact .kept
  | delete =>
    obtain ⟨entry, place, -, rfl⟩ := remove_eq_ok_iff.1 (Decision.perform_delete_eq_ok_iff.1 done)
    obtain ⟨name, dir, rfl, last⟩ := exists_lastEntry found place
    exact .taken place last
  | replace content count spans =>
    obtain ⟨place', place, -, rfl⟩ :=
      write_eq_ok_iff.1 (Decision.perform_replace_eq_ok_iff.1 done)
    rw [writePlace_of_find found place]
    exact .written _

/-- A dry run tells of a found file by its bytes. -/
theorem treatFile_dry_eq (dry : mode.dryRun = true) :
    treatFile t path s mode = (s.reportOn mode (t.refusals loc) path bytes, t) := by
  cases text : textWithin (t.refusals loc) bytes s.scan.maxFileSize with
  | error fault => exact treatFile_of_no_text text found
  | ok content =>
    rw [treatFile_of_text text found, Settings.reportOn_of_text text]
    simp only [treatContent, Decision.apply, dry, if_true]

/-- A real run tells of a found file by its bytes too, or that it failed to do what it meant. -/
theorem treatFile_real_cases (s : Settings) (mode : RunMode) (real : mode.dryRun = false) :
    ((treatFile t path s mode).1.intended ≠ none ∧
        (∃ message, (treatFile t path s mode).1.outcome = .error message) ∧
        (treatFile t path s mode).2 = t) ∨
      (treatFile t path s mode).1 = s.reportOn mode (t.refusals loc) path bytes ∧
        Carried t path loc bytes (s.fate (t.refusals loc) (.file bytes))
          (treatFile t path s mode).2 := by
  obtain ⟨dryRun, keeps⟩ := mode
  cases real
  cases text : textWithin (t.refusals loc) bytes s.scan.maxFileSize with
  | error fault =>
    rw [treatFile_of_no_text text found, Settings.fate_of_no_text text]
    exact .inr ⟨rfl, .kept⟩
  | ok content =>
    rw [treatFile_of_text text found, Settings.fate_of_text text, Settings.reportOn_of_text text]
    rcases treatContent_real_cases t path content s keeps with ⟨t', done, told⟩ | ⟨message, told⟩
    · rw [told]
      exact .inr ⟨rfl, carried_of_perform found done⟩
    · rw [told]
      exact .inl ⟨Option.some_ne_none _, ⟨message, rfl⟩, rfl⟩

end

namespace Carried

/-- What is refused is the same. -/
theorem refusals_eq (h : Carried t path loc bytes left t') : t'.refusals = t.refusals := by
  cases h with
  | kept => rfl
  | taken => exact refusals_erase
  | written => exact refusals_put

/-- Files are changed and taken away, and nothing else. -/
theorem reduces (h : Carried t path loc bytes left t')
    (found : t.find path = .ok (.file loc bytes)) : t.Reduces t' := by
  cases h with
  | kept => exact .refl t
  | taken place last => exact last.reduces
  | written bytes' =>
    exact reduces_put (get?_of_find_eq_file found)

/-- Other files are found as before, and so is the file itself if it is to stay. -/
theorem find (h : Carried t path loc bytes left t') (found : t.find path = .ok (.file loc bytes))
    (elsewhere : t.find other = .ok (.file l b)) (apart : l = loc → left = some (.file bytes)) :
    t'.find other = .ok (.file l b) := by
  cases h with
  | kept => exact elsewhere
  | taken place last =>
    exact find_erase last (fun same => Option.some_ne_none _ (apart same).symm) elsewhere
  | written bytes' =>
    have here := get?_of_find_eq_file found
    rw [find_put here bytes' elsewhere]
    split
    · rename_i same
      obtain rfl : bytes' = bytes := by simpa using apart same
      obtain rfl : bytes' = b := by
        simpa [← same, get?_of_find_eq_file elsewhere] using here.symm
      rfl
    · rfl

/-- A file has the bytes that it had, or it is the one at the path and has those that were to be
left. -/
theorem get?_file (h : Carried t path loc bytes left t')
    (found : t.find path = .ok (.file loc bytes)) (here : t'.get? l = some (.file b)) :
    t.get? l = some (.file b) ∨ l = loc ∧ left = some (.file b) := by
  cases h with
  | kept => exact .inl here
  | taken place last => exact .inl (get?_of_erase here)
  | written bytes' =>
    rw [get?_put_file (get?_of_find_eq_file found)] at here
    split at here
    · rename_i same
      exact .inr ⟨same, here⟩
    · exact .inl here

/-- The path itself leads to what was to be left. -/
theorem find_self (h : Carried t path loc bytes left t')
    (found : t.find path = .ok (.file loc bytes))
    (again : t'.find path = .ok (.file l b)) : l = loc ∧ left = some (.file b) := by
  cases h with
  | kept =>
    cases found.symm.trans again
    exact ⟨rfl, rfl⟩
  | taken place last => exact absurd again (find_erase_self place)
  | written bytes' =>
    have written := find_put (get?_of_find_eq_file found) bytes' found
    rw [if_pos rfl] at written
    cases written.symm.trans again
    exact ⟨rfl, rfl⟩

end Carried
end Expunge
