import Expunge.Proofs.Content.Remainder
import Expunge.Proofs.Content.Settling
import Expunge.Proofs.Run.FoundFile
import Expunge.Proofs.Run.Steps
import Expunge.Proofs.Scan.Reduced

/-!
# A second run

After a run without errors every file that it processed is gone or is one that a run keeps
(`underway_treatFiles`), so a second run finds nothing to remove, unless a rewrite leaves a text
that is proprietary as a whole (`run_again`). That happens when a snippet stands where the leading
comment of a file ends: without it the comment goes on (`run_again_removes_rewritten`).
-/

namespace Expunge
set_option autoImplicit false
open FileTree Expunge.Path

variable {t t' t'' after : FileTree} {s : Settings} {mode : RunMode} {keeps : Bool}
  {paths : List String} {path root content : String} {loc : Location} {bytes b : ByteArray}
  {refused : Refusals} {left : Option Entry} {start summary : Summary}

/-! ### Files that are kept -/

/-- The bytes can be read, and are a text that is kept. -/
def Settings.Keeps (s : Settings) (refused : Refusals) (bytes : ByteArray) : Prop :=
  ∃ content, textWithin refused bytes s.scan.maxFileSize = .ok content ∧
    Decision.ofContent s.markers s.comments content = .keep

theorem Settings.Keeps.fate (h : s.Keeps refused bytes) :
    s.fate refused (.file bytes) = some (.file bytes) := by
  obtain ⟨content, text, decided⟩ := h
  rw [Settings.fate_of_text text, decided]
  rfl

theorem Settings.Keeps.treatFile (h : s.Keeps (t.refusals loc) bytes)
    (found : t.find path = .ok (.file loc bytes)) :
    treatFile t path s mode = ({ file := path, outcome := .unchanged }, t) := by
  obtain ⟨content, text, decided⟩ := h
  rw [treatFile_of_text text found]
  cases dry : mode.dryRun <;>
    simp [treatContent, decided, Decision.apply, Decision.perform, Decision.outcome, Decision.spans,
      Decision.change?, dry]

theorem fromUTF8?_toUTF8 (content : String) : String.fromUTF8? content.toUTF8 = some content := by
  rw [String.fromUTF8?, String.toUTF8_eq_toByteArray, dif_pos content.isValidUTF8]
  rfl

theorem textWithin_toUTF8 {limit : Nat} (fits : content.utf8ByteSize ≤ limit)
    (readable : refused .read = none) : textWithin refused content.toUTF8 limit = .ok content := by
  have small : ¬ limit < content.toUTF8.size := by simpa using fits
  rw [textWithin, if_neg small, readable, fromUTF8?_toUTF8]

/-- A text within a limit is not longer, and it may be read. -/
theorem readable_of_textWithin {limit : Nat}
    (text : textWithin refused bytes limit = .ok content) :
    content.utf8ByteSize ≤ limit ∧ refused .read = none := by
  unfold textWithin at text
  split at text
  · cases text
  rename_i small
  split at text
  · cases text
  rename_i readable
  split at text
  · rename_i content' read
    cases text
    unfold String.fromUTF8? at read
    split at read
    · cases read
      exact ⟨by simpa [String.fromUTF8] using small, readable⟩
    · cases read
  · cases text

/-- The file at a path is not rewritten to a text that is proprietary as a whole. -/
def FileTree.rewritesClean (t : FileTree) (s : Settings) (path : String) : Bool :=
  match t.find path with
  | .ok (.file loc bytes) =>
    match textWithin (t.refusals loc) bytes s.scan.maxFileSize with
    | .ok content =>
      match Decision.ofContent s.markers s.comments content with
      | .replace left _ _ => !isProprietary s.markers s.comments left
      | .keep | .delete => true
    | .error _ => true
  | .ok (.directory _) | .error _ => true

/-- What is left of a file is kept. -/
theorem keeps_of_fate (marked : s.markers.opening ≠ "")
    (text : textWithin refused bytes s.scan.maxFileSize = .ok content)
    (clean : ∀ left count spans,
      Decision.ofContent s.markers s.comments content = .replace left count spans →
        isProprietary s.markers s.comments left = false)
    (fate : s.fate refused (.file bytes) = some (.file b)) : s.Keeps refused b := by
  rw [Settings.fate_of_text text] at fate
  cases decided : Decision.ofContent s.markers s.comments content with
  | keep =>
    rw [decided, Decision.left, Option.some.injEq, Entry.file.injEq] at fate
    exact ⟨content, fate ▸ text, decided⟩
  | delete =>
    rw [decided] at fate
    cases fate
  | replace left count spans =>
    rw [decided, Decision.left, Option.some.injEq, Entry.file.injEq] at fate
    have kept := Decision.ofContent_eq_keep (.inl marked) decided (clean left count spans decided)
    obtain ⟨-, cut, -, changed⟩ := Decision.ofContent_eq_replace_iff.1 decided
    have shorter : left.utf8ByteSize < content.utf8ByteSize := by
      have smaller := Markers.utf8ByteSize_excise_lt (by rwa [cut]) marked
      rwa [cut] at smaller
    obtain ⟨fits, readable⟩ := readable_of_textWithin text
    have fits' := Nat.le_trans (Nat.le_of_lt shorter) fits
    exact ⟨left, fate ▸ textWithin_toUTF8 fits' readable, kept⟩

/-- Whether a file is rewritten clean is a matter of its text. -/
theorem isProprietary_of_rewritesClean (clean : t.rewritesClean s path = true)
    (found : t.find path = .ok (.file loc bytes))
    (text : textWithin (t.refusals loc) bytes s.scan.maxFileSize = .ok content) {left : String} {count : Nat}
    {spans : List Span}
    (decided : Decision.ofContent s.markers s.comments content = .replace left count spans) :
    isProprietary s.markers s.comments left = false := by
  simpa [FileTree.rewritesClean, found, text, decided] using clean

/-! ### The first run -/

/-- A tree in which some files of another one were processed. -/
structure Underway (t : FileTree) (s : Settings) (paths : List String) (t' : FileTree) : Prop where
  reduces : t.Reduces t'
  refusals : t'.refusals = t.refusals
  /-- A file has its first bytes, or is kept. -/
  bytes : ∀ loc b, t'.get? loc = some (.file b) →
    t.get? loc = some (.file b) ∨ s.Keeps (t.refusals loc) b
  /-- What is still found at the paths is kept. -/
  processed : ∀ path ∈ paths, ∀ loc b, t'.find path = .ok (.file loc b) →
    s.Keeps (t.refusals loc) b

namespace Underway

theorem none (t : FileTree) (s : Settings) : Underway t s [] t where
  reduces := .refl t
  refusals := rfl
  bytes _ _ here := .inl here
  processed := by simp

/-- One file more is processed. -/
theorem carried (h : Underway t s paths t') (found : t'.find path = .ok (.file loc bytes))
    (step : Carried t' path loc bytes left t'')
    (kept : ∀ b, left = some (.file b) → s.Keeps (t.refusals loc) b) :
    Underway t s (paths ++ [path]) t'' where
  reduces := h.reduces.trans (step.reduces found)
  refusals := step.refusals_eq.trans h.refusals
  bytes l b here := by
    rcases step.get?_file found here with before | ⟨rfl, same⟩
    · exact h.bytes l b before
    · exact .inr (kept b same)
  processed := by
    intro other mem l b again
    rcases List.mem_append.1 mem with mem | mem
    · rcases step.get?_file found (get?_of_find_eq_file again) with before | ⟨rfl, same⟩
      · obtain ⟨b', found'⟩ := (step.reduces found).exists_find again
        cases before.symm.trans (get?_of_find_eq_file found')
        exact h.processed other mem l b found'
      · exact kept b same
    · rw [List.mem_singleton.1 mem] at again
      obtain ⟨rfl, same⟩ := step.find_self found again
      exact kept b same

end Underway

/-- A real run without errors leaves nothing at its paths but files that are kept. -/
theorem underway_treatFiles (marked : s.markers.opening ≠ "") (real : mode.dryRun = false)
    (clean : ∀ path ∈ paths, t.rewritesClean s path = true)
    (fine : (treatFiles s mode paths (start, t)).1.errors = []) :
    Underway t s paths (treatFiles s mode paths (start, t)).2 := by
  -- each file is read with its first bytes, or is kept already because another path led to it
  induction paths using List.reverseRecOn with
  | nil => exact Underway.none t s
  | append_singleton paths path ih =>
    rw [treatFiles_concat] at fine ⊢
    generalize treatFiles s mode paths (start, t) = done at ih fine ⊢
    dsimp only at fine ⊢
    rw [Summary.errors_add, List.append_eq_nil_iff] at fine
    obtain ⟨before, last⟩ := fine
    have underway := ih (fun p mem => clean p (by simp [mem])) before
    have noError : ∀ message, (treatFile done.2 path s mode).1.outcome ≠ .error message := by
      intro message failed
      simp [FileReport.error?, failed] at last
    by_cases noFile : ∃ loc bytes, done.2.find path = .ok (.file loc bytes)
    · obtain ⟨loc, bytes, found⟩ := noFile
      rcases treatFile_real_cases found s mode real with
        ⟨-, ⟨message, failed⟩, -⟩ | ⟨told, carried⟩
      · exact absurd failed (noError message)
      rw [underway.refusals] at told carried
      refine underway.carried found carried fun b fate => ?_
      rcases underway.bytes loc bytes (get?_of_find_eq_file found) with first | kept
      · cases text : textWithin (t.refusals loc) bytes s.scan.maxFileSize with
        | error fault =>
          rw [told, Settings.reportOn, text] at noError
          exact absurd rfl (noError _)
        | ok content =>
          obtain ⟨bytes', found'⟩ := underway.reduces.exists_find found
          cases first.symm.trans (get?_of_find_eq_file found')
          exact keeps_of_fate marked text (fun left count spans decided =>
            isProprietary_of_rewritesClean (clean path (by simp)) found' text decided) fate
      · rw [kept.fate, Option.some.injEq, Entry.file.injEq] at fate
        exact fate ▸ kept
    · obtain ⟨fault, told⟩ := exists_treatFile_eq_of_not_file s mode
        fun loc bytes found => noFile ⟨loc, bytes, found⟩
      rw [told] at noError
      exact absurd rfl (noError fault.message)

/-! ### The second run -/

/-- Reports of files that were left alone count nothing. -/
theorem Summary.foldl_add_unchanged (start : Summary) (paths : List String) :
    (paths.map fun path => ({ file := path, outcome := .unchanged } : FileReport)).foldl add start =
      { start with
        filesScanned := start.filesScanned + .ofNat paths.length
        reports := start.reports ++
          paths.map fun path => { file := path, outcome := .unchanged } } := by
  induction paths generalizing start with
  | nil => simp
  | cons path paths ih =>
    rw [List.map_cons, List.foldl_cons, ih]
    simp [add, count, FileReport.error?, UInt64.add_assoc, UInt64.add_comm 1]

/-- Files that are kept are left alone one after the other. -/
theorem treatFiles_of_keeps
    (kept : ∀ path ∈ paths, ∃ loc bytes, t.find path = .ok (.file loc bytes) ∧
      s.Keeps (t.refusals loc) bytes) :
    treatFiles s mode paths (start, t) =
      ((paths.map fun path => ({ file := path, outcome := .unchanged } : FileReport)).foldl
        Summary.add start, t) := by
  induction paths generalizing start with
  | nil => rfl
  | cons path paths ih =>
    obtain ⟨loc, bytes, found, keeps⟩ := kept path (by simp)
    rw [treatFiles_cons, keeps.treatFile found, ih fun p mem => kept p (by simp [mem])]
    rfl

/-- A discovery in the reduced tree by the same rules finds no other files, and the same errors. -/
theorem discover_again {found : Discovery} (reduces : t.Reduces after)
    (here : t.isDirectory root = true) (discovered : discover t root s.scan = .ok found)
    (rules : s.scan.disableGitignore = true ∨ ignoreRulesAt after root = ignoreRulesAt t root) :
    ∃ found', discover after root s.scan = .ok found' ∧ after.isDirectory root = true ∧
      found'.files ⊆ found.files ∧ found'.errors = found.errors := by
  obtain ⟨includes, excludes, selection, lines, rfl⟩ := exists_scope_of_discover discovered
  let scope := scopeOf t root includes
    (if s.scan.disableGitignore then [] else ignoreRulesAt t root) excludes
  let scope' := scopeOf after root includes
    (if s.scan.disableGitignore then [] else ignoreRulesAt after root) excludes
  have same : (if s.scan.disableGitignore then [] else ignoreRulesAt after root) =
      if s.scan.disableGitignore then [] else ignoreRulesAt t root := by
    rcases rules with off | rules
    · rw [if_pos off, if_pos off]
    · rw [rules]
  have reduced : scope.Reduces scope' := ⟨reduces, rfl, rfl, by
    simp only [scope', scope, same]
    rfl⟩
  unfold FileTree.isDirectory at here
  split at here
  · rename_i top place
    obtain ⟨part, errors⟩ := Scope.discover_reduced reduced place
    refine ⟨scope'.discover, ?_, ?_, part, errors⟩
    · simp only [discover, scope?, selection, lines]
      rfl
    · rw [FileTree.isDirectory, reduces.find_directory_iff.2 place]
  · cases here

/-- **A second run finds nothing to remove**, if the first one had no errors, left no text that is
proprietary as a whole, and did not touch the ignore file. -/
theorem run_again (tokens : s.emptyToken? = none)
    (done : run t root s ⟨false, keeps⟩ = (.ok summary, after)) (fine : summary.isOk = true)
    (rules : s.scan.disableGitignore = true ∨ ignoreRulesAt after root = ignoreRulesAt t root)
    (clean : ∀ found, discover t root s.scan = .ok found →
      ∀ path ∈ found.files.map (below root), t.rewritesClean s path = true) (mode : RunMode) :
    ∃ again, run after root s mode = (.ok again, after) ∧ again.isOk = true ∧
      again.filesRemoved = 0 ∧ again.snippetsRemoved = 0 ∧
      ∀ r ∈ again.reports, r.outcome = .unchanged := by
  obtain ⟨here, found, discovered, processed⟩ := run_eq_ok_iff.1 done
  have marked : s.markers.opening ≠ "" :=
    Settings.emptyToken?_eq_none_iff.1 tokens ("markers.begin", s.markers.opening)
      (by simp [Settings.tokens])
  let start : Summary := { errors := found.fileErrors root }
  obtain ⟨told, rest⟩ : (treatFiles s ⟨false, keeps⟩ (found.files.map (below root)) (start, t)).1 =
      summary ∧ (treatFiles s ⟨false, keeps⟩ (found.files.map (below root)) (start, t)).2 = after :=
    Prod.ext_iff.1 processed
  have noError := Summary.isOk_iff.1 fine
  rw [← told] at noError
  have underway := underway_treatFiles marked rfl (clean found discovered) noError
  rw [rest] at underway
  -- no directory failed in the first run, so none fails in the second
  have walked : found.errors = [] := by
    obtain ⟨rs, e⟩ :=
      exists_reports_treatFiles s ⟨false, keeps⟩ (found.files.map (below root)) (start, t)
    rw [e, Summary.errors_foldl_add, List.append_eq_nil_iff] at noError
    exact List.map_eq_nil_iff.1 noError.1
  obtain ⟨found', discovered', here', part, errors⟩ :=
    discover_again underway.reduces here discovered rules
  have kept : ∀ path ∈ found'.files.map (below root), ∃ loc bytes,
      after.find path = .ok (.file loc bytes) ∧ s.Keeps (after.refusals loc) bytes := by
    intro path mem
    obtain ⟨loc, bytes, place⟩ := exists_find_of_mem_discover discovered' path mem
    have kept := underway.processed path (List.map_subset _ part mem) loc bytes place
    exact ⟨loc, bytes, place, underway.refusals ▸ kept⟩
  refine ⟨_, run_eq_ok_iff.2 ⟨here', found', discovered', treatFiles_of_keeps kept⟩, ?_⟩
  rw [Summary.foldl_add_unchanged]
  refine ⟨?_, rfl, rfl, fun r mem => ?_⟩
  · rw [Summary.isOk_iff]
    simp [Discovery.fileErrors, errors, walked]
  · obtain ⟨path, -, rfl⟩ := List.mem_map.1 mem
    rfl

/-- A file with a snippet and a file that is proprietary as a whole. -/
def licensedTree : FileTree where
  entries :=
    [(["src"], .directory),
      (["lib.rs", "src"], .file ("fn main() {}\n// SPDX-SnippetBegin\n" ++
        "// SPDX-License-Identifier: LicenseRef-SEL\n// SPDX-SnippetEnd\n").toUTF8),
      (["old.rs", "src"], .file "// SPDX-License-Identifier: LicenseRef-SEL\n".toUTF8)]

theorem run_again_licensedTree :
    ∃ summary after again, run licensedTree "src" {} {} = (.ok summary, after) ∧
      summary.filesRemoved = 1 ∧ summary.snippetsRemoved = 1 ∧
      run after "src" {} {} = (.ok again, after) ∧ again.filesRemoved = 0 ∧
      again.snippetsRemoved = 0 := by
  let done := treatFiles {} {} ["src/lib.rs", "src/old.rs"] ({}, licensedTree)
  have here : licensedTree.isDirectory "src" = true := by decide
  have walked : ((scope? licensedTree "src" ({} : Settings).scan).map Scope.walk).toOption.map
      (fun w => (w.files, w.errors)) = some ([["lib.rs"], ["old.rs"]], []) := by
    decide +kernel
  have ran : run licensedTree "src" {} {} = (.ok done.1, done.2) :=
    run_eq_of_walk here walked (by decide) (by decide) rfl rfl
  have fine : (done.1.isOk, done.1.filesRemoved, done.1.snippetsRemoved) = (true, 1, 1) := by
    decide +kernel
  simp only [Prod.mk.injEq] at fine
  have rules : ignoreRulesAt done.2 "src" = ignoreRulesAt licensedTree "src" := by decide +kernel
  obtain ⟨again, second, -, removed, snippets, -⟩ :=
    run_again (by decide) ran fine.1 (.inr rules) (fun found discovered => by
      rw [discover_eq_of_walk walked (by decide)] at discovered
      obtain rfl := Except.ok.inj discovered
      decide +kernel) {}
  exact ⟨done.1, done.2, again, ran, fine.2.1, fine.2.2, second, removed, snippets⟩

/-- A run may take the ignore file itself away, and the next one finds a file that it hid. -/
example :
    let licence := "// SPDX-License-Identifier: LicenseRef-SEL\n"
    let s : Settings := { scan := { includes := ["*"] } }
    let t : FileTree :=
      { entries :=
          [(["src"], .directory), ([".gitignore", "src"], .file (licence ++ "old.rs\n").toUTF8),
            (["old.rs", "src"], .file licence.toUTF8)] }
    ((run t "src" s {}).1.toOption.bind fun p => (run (run t "src" s {}).2 "src" s {}).1.toOption.map
      fun q => (p.isOk, p.filesRemoved, q.filesRemoved)) = some (true, 1, 1) := by
  decide +kernel

/-- A snippet at the top of a file whose licence line the leading comment does not reach, and behind
it a line that names the licence. Without the snippet that line leads the file. -/
theorem run_again_removes_rewritten :
    let content := "// SPDX-SnippetBegin\nfn secret() {}\n// SPDX-License-Identifier: " ++
      "LicenseRef-SEL\n// SPDX-SnippetEnd\n// SPDX-License-Identifier: LicenseRef-SEL\n" ++
      "fn public() {}\n"
    let t : FileTree :=
      { entries := [(["src"], .directory), (["lib.rs", "src"], .file content.toUTF8)] }
    ∃ summary after again after', run t "src" {} {} = (.ok summary, after) ∧
      summary.isOk = true ∧ summary.snippetsRemoved = 1 ∧
      run after "src" {} {} = (.ok again, after') ∧ again.filesRemoved = 1 := by
  intro content t
  have both : ((run t "src" {} {}).1.toOption.bind fun p =>
      (run (run t "src" {} {}).2 "src" {} {}).1.toOption.map
        fun q => (p.isOk, p.snippetsRemoved, q.filesRemoved)) = some (true, 1, 1) := by
    decide +kernel
  obtain ⟨summary, first, both⟩ := Option.bind_eq_some_iff.1 both
  obtain ⟨again, second, counts⟩ := Option.map_eq_some_iff.1 both
  simp only [Prod.mk.injEq] at counts
  exact ⟨summary, _, again, _, Prod.ext (eq_ok_of_toOption first) rfl, counts.1,
    counts.2.1, Prod.ext (eq_ok_of_toOption second) rfl, counts.2.2⟩

end Expunge
