import Expunge.Proofs.Command.Exit
import Expunge.Proofs.Run.Capture

/-!
# What is shown

Verbosity, diffs, the format of the summary and colors are a matter of what is printed. Of all of
them a run sees only whether contents are kept for a diff, and these count for nothing
(`work_withoutChanges`), so two commands that ask for the same work leave the same tree and exit
alike.
-/

namespace Expunge.Command
set_option autoImplicit false

variable {t : FileTree} {a b : Arguments}

/-- The same is asked for, whatever is to be shown of it. -/
structure Arguments.SameWork (a b : Arguments) : Prop where
  directory : a.directory = b.directory
  config : a.config? = b.config?
  dryRun : a.has .dryRun = b.has .dryRun

/-- Contents aside, a command works as one that keeps none. -/
theorem work_withoutChanges (t : FileTree) (a : Arguments) :
    (work t a).map (Except.map Summary.withoutChanges) id =
      match settingsFor t a with
      | .error fault => (.error fault, t)
      | .ok s => run t a.directory s ⟨a.has .dryRun, false⟩ := by
  cases loaded : settingsFor t a with
  | error fault =>
    rw [work_of_no_settings loaded]
    rfl
  | ok s =>
    rw [work_of_settings loaded]
    exact run_withoutChanges t a.directory s (a.has .dryRun) (a.has .diff)

/-- The same request comes to the same, contents aside. -/
theorem Arguments.SameWork.work_eq (same : a.SameWork b) :
    (work t a).map (Except.map Summary.withoutChanges) id =
      (work t b).map (Except.map Summary.withoutChanges) id := by
  have settings : settingsFor t a = settingsFor t b := by
    rw [settingsFor, settingsFor, same.config, same.directory]
  rw [work_withoutChanges, work_withoutChanges, settings, same.directory, same.dryRun]

/-- A command exits and leaves the tree as its work says, contents aside. -/
theorem process_congr (e e' : Surroundings)
    (same : (work t a).map (Except.map Summary.withoutChanges) id =
      (work t b).map (Except.map Summary.withoutChanges) id) :
    (process e t a).exitCode = (process e' t b).exitCode ∧
      (process e t a).tree = (process e' t b).tree := by
  generalize first : work t a = done, second : work t b = done' at same
  obtain ⟨result, after⟩ := done
  obtain ⟨result', after'⟩ := done'
  obtain ⟨told, trees⟩ := Prod.mk.inj same
  cases result with
  | error fault =>
    cases result' with
    | error fault' =>
      have one := process_of_error e first
      have other := process_of_error e' second
      exact ⟨one.exitCode.trans other.exitCode.symm, one.tree.trans (trees.trans other.tree.symm)⟩
    | ok summary' => cases told
  | ok summary =>
    cases result' with
    | error fault' => cases told
    | ok summary' =>
      have errors : summary.errors = summary'.errors := congrArg (·.errors) (Except.ok.inj told)
      have one := process_of_ok e first
      have other := process_of_ok e' second
      refine ⟨?_, one.tree.trans (trees.trans other.tree.symm)⟩
      rw [one.exitCode, other.exitCode, errors]

/-- **What is shown changes nothing else.** Commands that ask for the same work leave the same tree
and exit with the same code, however they show it and whatever the surroundings say of colors; and
a run that keeps contents tells and leaves what one without them does, the contents aside. -/
theorem presentation_inert :
    (∀ (e e' : Surroundings) (t : FileTree) (arguments arguments' : List String)
      (a b : Arguments), read arguments = .ok (.process a) → read arguments' = .ok (.process b) →
      a.SameWork b →
      (execute e t arguments).exitCode = (execute e' t arguments').exitCode ∧
        (execute e t arguments).tree = (execute e' t arguments').tree) ∧
    ∀ (t : FileTree) (root : String) (s : Settings) (dry : Bool),
      (run t root s ⟨dry, true⟩).map (Except.map Summary.withoutChanges) id =
        (run t root s ⟨dry, false⟩).map (Except.map Summary.withoutChanges) id := by
  constructor
  · intro e e' t arguments arguments' a b accepted accepted' same
    simp only [execute, accepted, accepted']
    exact process_congr e e' same.work_eq
  · intro t root s dry
    rw [run_withoutChanges, run_withoutChanges]

theorem presentation_inert_mixedTree :
    let plain := ["--format=json", "src"]
    let shown := ["src", "--verbose", "--diff"]
    read plain = .ok (.process ⟨"src", [], .json, none⟩) ∧
      read shown = .ok (.process ⟨"src", [.diff, .verbose], .text, none⟩) ∧
      (execute {} mixedTree plain).exitCode = (execute ⟨true, true⟩ mixedTree shown).exitCode ∧
      (execute {} mixedTree plain).tree = (execute ⟨true, true⟩ mixedTree shown).tree := by
  intro plain shown
  have accepted : read plain = .ok (.process ⟨"src", [], .json, none⟩) := by decide +kernel
  have accepted' : read shown = .ok (.process ⟨"src", [.diff, .verbose], .text, none⟩) := by
    decide +kernel
  exact ⟨accepted, accepted',
    presentation_inert.1 {} ⟨true, true⟩ mixedTree plain shown _ _ accepted accepted' ⟨rfl, rfl, rfl⟩⟩

end Expunge.Command
