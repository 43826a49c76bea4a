import Expunge.Proofs.Files.Writing
import Expunge.Proofs.Run.OneFile

/-!
# Previews

A dry run tells of a file what a real run tells of it, unless the decision cannot be carried out;
then the real run tells of the failure, and the tree is as before (`file_preview`).
-/

namespace Expunge
set_option autoImplicit false

variable {t t' : FileTree} {path content left : String} {s : Settings} {keeps : Bool}
  {count : Nat} {spans : List Span}

/-- What a dry run tells of a content, and what a real run tells of it and leaves. -/
structure Foretells (t : FileTree) (s : Settings) (path content : String) (keeps : Bool)
    (dry real : FileReport × FileTree) : Prop where
  /-- The dry run leaves the tree as it is, and has nothing that failed. -/
  untouched : dry.2 = t ∧ dry.1.intended = none
  spans : real.1.spans = dry.1.spans
  change : real.1.change = dry.1.change
  /-- The real run tells the same, or that it failed to do it and has done nothing. -/
  outcome : real.1 = dry.1 ∨
    (∃ message, real.1.outcome = .error message) ∧ real.1.intended = some dry.1.outcome ∧
      real.2 = t
  /-- A rewrite that did not fail is found at the path. -/
  rewritten : ∀ left count spans,
    Decision.ofContent s.markers s.comments content = .replace left count spans →
      real.1.change = (if keeps then some ⟨content, left⟩ else none) ∧
      ((∀ message, real.1.outcome ≠ .error message) →
        ∃ loc, real.2.find path = .ok (.file loc left.toUTF8))

/-- A real run carries a decision out, or tells what was meant. -/
theorem treatContent_real_cases (t : FileTree) (path content : String) (s : Settings)
    (keeps : Bool) :
    let d := Decision.ofContent s.markers s.comments content
    let change := d.change? ⟨false, keeps⟩ content
    (∃ t', d.perform t path = .ok t' ∧ treatContent t path content s ⟨false, keeps⟩ =
        (⟨path, d.outcome, none, d.spans, change⟩, t')) ∨
      ∃ message, treatContent t path content s ⟨false, keeps⟩ =
        (⟨path, .error message, some d.outcome, d.spans, change⟩, t) := by
  intro d change
  cases done : d.perform t path with
  | ok t' =>
    refine .inl ⟨t', rfl, ?_⟩
    simp only [treatContent, Decision.apply, Bool.false_eq_true, if_false, d, change] at done ⊢
    rw [done]
  | error fault =>
    refine .inr ⟨fault.message, ?_⟩
    simp only [treatContent, Decision.apply, Bool.false_eq_true, if_false, d, change] at done ⊢
    rw [done]

theorem Decision.perform_delete_eq_ok_iff :
    delete.perform t path = .ok t' ↔ t.remove path = .ok t' := by
  cases removed : t.remove path <;> simp [perform, removed, Except.mapError]

theorem Decision.perform_replace_eq_ok_iff :
    (replace left count spans).perform t path = .ok t' ↔ t.write path left = .ok t' := by
  cases written : t.write path left <;> simp [perform, written, Except.mapError]

/-- A rewrite that was carried out is found at the path. -/
theorem find_of_perform_replace
    (done : (Decision.replace left count spans).perform t path = .ok t') :
    ∃ loc, t'.find path = .ok (.file loc left.toUTF8) :=
  FileTree.find_of_write (Decision.perform_replace_eq_ok_iff.1 done)

theorem foretells_treatContent (t : FileTree) (path content : String) (s : Settings)
    (keeps : Bool) :
    Foretells t s path content keeps (treatContent t path content s ⟨true, keeps⟩)
      (treatContent t path content s ⟨false, keeps⟩) := by
  let d := Decision.ofContent s.markers s.comments content
  have dry : treatContent t path content s ⟨true, keeps⟩ =
      (⟨path, d.outcome, none, d.spans, d.change? ⟨false, keeps⟩ content⟩, t) := rfl
  have captured : ∀ left count spans, d = .replace left count spans →
      d.change? ⟨false, keeps⟩ content = if keeps then some ⟨content, left⟩ else none := by
    intro left count spans decided
    rw [decided]
    rfl
  rcases treatContent_real_cases t path content s keeps with ⟨t', done, real⟩ | ⟨message, real⟩
  · rw [dry, real]
    refine ⟨⟨rfl, rfl⟩, rfl, rfl, .inl rfl, fun left count spans decided => ?_⟩
    refine ⟨captured left count spans decided, fun _ => ?_⟩
    exact find_of_perform_replace (decided ▸ done)
  · rw [dry, real]
    refine ⟨⟨rfl, rfl⟩, rfl, rfl, .inr ⟨⟨message, rfl⟩, rfl, rfl⟩, fun left count spans decided => ?_⟩
    exact ⟨captured left count spans decided, fun fine => absurd rfl (fine message)⟩

/-- In a directory that is missing nothing can be written, and the report tells what was meant. -/
example :
    let content := "fn main() {}\n// SPDX-SnippetBegin\n// SPDX-License-Identifier: " ++
      "LicenseRef-SEL\n// SPDX-SnippetEnd\n"
    (treatContent default "missing/mixed.rs" content {} {}).1 =
      { file := "missing/mixed.rs"
        outcome := .error (Fault.unwritable "missing/mixed.rs" .notFound).message
        intended := some (.snippetsRemoved 1)
        spans := [{ startLine := 2, endLine := 4, terminated := true }] } := by
  decide +kernel

/-- **A dry run foretells a real run of one file.** It does so of every content that is given or
read, and a file that cannot be read is told of alike and left alone. -/
theorem file_preview (t : FileTree) (path : String) (s : Settings) (keeps : Bool) :
    (∀ content, Foretells t s path content keeps (treatContent t path content s ⟨true, keeps⟩)
      (treatContent t path content s ⟨false, keeps⟩)) ∧
    match t.readWithin path s.scan.maxFileSize with
    | .ok content => Foretells t s path content keeps (treatFile t path s ⟨true, keeps⟩)
        (treatFile t path s ⟨false, keeps⟩)
    | .error _ => treatFile t path s ⟨false, keeps⟩ = treatFile t path s ⟨true, keeps⟩ ∧
        (treatFile t path s ⟨true, keeps⟩).1.intended = none ∧
        (treatFile t path s ⟨true, keeps⟩).2 = t := by
  refine ⟨fun content => foretells_treatContent t path content s keeps, ?_⟩
  cases read : t.readWithin path s.scan.maxFileSize with
  | ok content =>
    simp only [treatFile, read]
    exact foretells_treatContent t path content s keeps
  | error fault =>
    have alike : ∀ mode, treatFile t path s mode =
        ({ file := path, outcome := .error fault.message }, t) := fun mode => by
      rw [treatFile, read]
    rw [alike, alike]
    exact ⟨rfl, rfl, rfl⟩

end Expunge
