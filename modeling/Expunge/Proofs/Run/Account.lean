import Expunge.Proofs.Run.Steps
import Mathlib.Algebra.GroupWithZero.Nat

/-!
# The account of a run

Every report that is added to a summary moves the counter of its kind and no other, so the counters
are the numbers of the reports whatever was added (`Accounts.foldl_add`), modulo the size of a word,
and exactly those where they fit in one (`Accounts.exact`). The reports of a run agree in themselves
too: their spans and their change are those of the decision that the outcome names, carried out or
not (`agrees_treatFile`).
-/

namespace Expunge
set_option autoImplicit false
open Expunge.Path

/-- What outcomes are counted by. -/
inductive Outcome.Kind
  | removed
  | rewritten
  | unchanged
  | failed
  deriving DecidableEq, Repr

/-- The kind of an outcome. -/
def Outcome.kind : Outcome → Kind
  | removed => .removed
  | snippetsRemoved _ => .rewritten
  | unchanged => .unchanged
  | error _ => .failed

/-- How many snippets an outcome counts. -/
def Outcome.snippets : Outcome → Nat
  | snippetsRemoved count => count
  | removed | unchanged | error _ => 0

/-- The error names the file of a report and says why it failed. -/
def FileReport.Tells (r : FileReport) (e : FileError) : Prop :=
  e.file = r.file ∧ r.outcome = .error e.message

/-- The reports of one kind. -/
def Summary.reportsOf (s : Summary) (k : Outcome.Kind) : List FileReport :=
  s.reports.filter (·.outcome.kind = k)

/-- The counters and errors of a summary are those of its reports, after some errors that were
there before. A counter that overflows starts again from zero. -/
structure Summary.Accounts (s : Summary) (earlier : List FileError) : Prop where
  scanned : s.filesScanned = .ofNat s.reports.length
  removed : s.filesRemoved = .ofNat (s.reportsOf .removed).length
  rewritten : s.filesWithSnippetsRemoved = .ofNat (s.reportsOf .rewritten).length
  snippets : s.snippetsRemoved = .ofNat ((s.reportsOf .rewritten).map (·.outcome.snippets)).sum
  /-- Each file is counted under one kind. -/
  kinds : s.reports.length = (s.reportsOf .removed).length + (s.reportsOf .rewritten).length +
    (s.reportsOf .unchanged).length + (s.reportsOf .failed).length
  /-- Each failed file has its error, in the order of the reports. -/
  errors : ∃ failures, s.errors = earlier ++ failures ∧
    List.Forall₂ FileReport.Tells (s.reportsOf .failed) failures
  changed : s.changed.length = (s.reportsOf .removed).length + (s.reportsOf .rewritten).length

/-- No counter overflows: the reports are fewer than the words, and so are the snippets that they
count. -/
structure Summary.Countable (s : Summary) : Prop where
  reports : s.reports.length < UInt64.size
  snippets : ((s.reportsOf .rewritten).map (·.outcome.snippets)).sum < UInt64.size

/-- The counters are the numbers of the reports and of their snippets. -/
structure Summary.Exact (s : Summary) : Prop where
  scanned : s.filesScanned.toNat = s.reports.length
  removed : s.filesRemoved.toNat = (s.reportsOf .removed).length
  rewritten : s.filesWithSnippetsRemoved.toNat = (s.reportsOf .rewritten).length
  snippets : s.snippetsRemoved.toNat = ((s.reportsOf .rewritten).map (·.outcome.snippets)).sum
  kinds : s.filesScanned.toNat = s.filesRemoved.toNat + s.filesWithSnippetsRemoved.toNat +
    (s.reportsOf .unchanged).length + (s.reportsOf .failed).length
  changed : s.changed.length = s.filesRemoved.toNat + s.filesWithSnippetsRemoved.toNat

/-- What a report says of its spans and its change fits its outcome. -/
structure FileReport.Agrees (r : FileReport) (keepsContent : Bool) : Prop where
  /-- Where snippets were removed, or were meant to be, there is a span for each of them. -/
  snippets : ∀ n, r.outcome = .snippetsRemoved n ∨ r.intended = some (.snippetsRemoved n) →
    r.spans.length = n ∧ 1 ≤ n ∧ r.change.isSome = keepsContent
  /-- Where none were and none were meant to be, there is nothing to show. -/
  others : (∀ n, r.outcome ≠ .snippetsRemoved n ∧ r.intended ≠ some (.snippetsRemoved n)) →
    r.spans = [] ∧ r.change = none
  /-- What was meant is told of a failure alone. -/
  intended : r.intended ≠ none → ∃ message, r.outcome = .error message

/-! ### Adding reports -/

namespace Summary

variable {s : Summary} {earlier : List FileError}

/-- A report that is added comes last among those of its kind. -/
theorem reportsOf_add (s : Summary) (r : FileReport) (k : Outcome.Kind) :
    (s.add r).reportsOf k = s.reportsOf k ++ if r.outcome.kind = k then [r] else [] := by
  rw [reportsOf, reportsOf, reports_add, List.filter_append]
  by_cases same : r.outcome.kind = k <;> simp [same]

theorem length_reportsOf_add (s : Summary) (r : FileReport) (k : Outcome.Kind) :
    ((s.add r).reportsOf k).length =
      (s.reportsOf k).length + if r.outcome.kind = k then 1 else 0 := by
  rw [reportsOf_add, List.length_append]
  by_cases same : r.outcome.kind = k <;> simp [same]

theorem filesRemoved_add (s : Summary) (r : FileReport) :
    (s.add r).filesRemoved = s.filesRemoved + .ofNat (if r.outcome.kind = .removed then 1 else 0) := by
  cases outcome : r.outcome <;> simp [add, count, outcome, Outcome.kind]

theorem filesWithSnippetsRemoved_add (s : Summary) (r : FileReport) :
    (s.add r).filesWithSnippetsRemoved =
      s.filesWithSnippetsRemoved + .ofNat (if r.outcome.kind = .rewritten then 1 else 0) := by
  cases outcome : r.outcome <;> simp [add, count, outcome, Outcome.kind]

theorem snippetsRemoved_add (s : Summary) (r : FileReport) :
    (s.add r).snippetsRemoved = s.snippetsRemoved + .ofNat r.outcome.snippets := by
  cases outcome : r.outcome <;> simp [add, count, outcome, Outcome.snippets]

theorem length_changed_add (s : Summary) (r : FileReport) :
    (s.add r).changed.length = s.changed.length + if r.outcome.isChange then 1 else 0 := by
  rw [changed, changed, reports_add, List.filter_append, List.length_append]
  by_cases change : r.outcome.isChange <;> simp [change]

/-- A summary without reports. -/
theorem accounts_of_no_reports (dry : Bool) (earlier : List FileError) :
    ({ dryRun := dry, errors := earlier } : Summary).Accounts earlier where
  scanned := rfl
  removed := rfl
  rewritten := rfl
  kinds := rfl
  snippets := rfl
  errors := ⟨[], (List.append_nil earlier).symm, .nil⟩
  changed := rfl

/-- One report more is one file more. -/
theorem Accounts.add (h : s.Accounts earlier) (r : FileReport) : (s.add r).Accounts earlier where
  scanned := by
    rw [filesScanned_add, reports_add, List.length_append, UInt64.ofNat_add, h.scanned]
    rfl
  removed := by rw [filesRemoved_add, length_reportsOf_add, UInt64.ofNat_add, h.removed]
  rewritten := by
    rw [filesWithSnippetsRemoved_add, length_reportsOf_add, UInt64.ofNat_add, h.rewritten]
  snippets := by
    rw [snippetsRemoved_add, reportsOf_add, List.map_append, List.sum_append, UInt64.ofNat_add,
      h.snippets]
    cases outcome : r.outcome <;> simp [outcome, Outcome.kind, Outcome.snippets]
  kinds := by
    have before := h.kinds
    rw [reports_add, List.length_append, List.length_singleton]
    simp only [length_reportsOf_add]
    cases r.outcome.kind <;> simp <;> omega
  errors := by
    obtain ⟨failures, errors, told⟩ := h.errors
    rw [errors_add, reportsOf_add, errors]
    cases outcome : r.outcome with
    | error message =>
      refine ⟨failures ++ [⟨r.file, message⟩], ?_, ?_⟩
      · simp [FileReport.error?, outcome]
      · exact List.rel_append told (.cons ⟨rfl, outcome⟩ .nil)
    | removed | snippetsRemoved _ | unchanged =>
      refine ⟨failures, ?_, ?_⟩
      · simp [FileReport.error?, outcome]
      · simpa [Outcome.kind] using told
  changed := by
    have before := h.changed
    rw [length_changed_add, length_reportsOf_add, length_reportsOf_add]
    cases r.outcome <;> simp [Outcome.kind, Outcome.isChange] <;> omega

/-- **Reports account for the counters**, whatever is reported. -/
theorem Accounts.foldl_add (h : s.Accounts earlier) (rs : List FileReport) :
    (rs.foldl Summary.add s).Accounts earlier := by
  induction rs generalizing s with
  | nil => exact h
  | cons r rs ih => exact ih (h.add r)

/-- Counters that do not overflow are exact. -/
theorem Accounts.exact (h : s.Accounts earlier) (fits : s.Countable) : s.Exact := by
  have part (k : Outcome.Kind) : (s.reportsOf k).length < UInt64.size :=
    (List.length_filter_le ..).trans_lt fits.reports
  have scanned : s.filesScanned.toNat = s.reports.length := by
    rw [h.scanned, UInt64.toNat_ofNat_of_lt' fits.reports]
  have removed : s.filesRemoved.toNat = (s.reportsOf .removed).length := by
    rw [h.removed, UInt64.toNat_ofNat_of_lt' (part .removed)]
  have rewritten : s.filesWithSnippetsRemoved.toNat = (s.reportsOf .rewritten).length := by
    rw [h.rewritten, UInt64.toNat_ofNat_of_lt' (part .rewritten)]
  exact {
    scanned
    removed
    rewritten
    snippets := by rw [h.snippets, UInt64.toNat_ofNat_of_lt' fits.snippets]
    kinds := by rw [scanned, removed, rewritten, h.kinds]
    changed := by rw [removed, rewritten, h.changed] }

end Summary

section
variable {s : Settings} {mode : RunMode} {content path : String} {t : FileTree}

/-- A decision has a span for each snippet that its outcome counts, and a change if it is asked
for. -/
theorem Decision.snippets_of_outcome {n : Nat}
    (h : (ofContent s.markers s.comments content).outcome = .snippetsRemoved n) :
    (ofContent s.markers s.comments content).spans.length = n ∧ 1 ≤ n ∧
      ((ofContent s.markers s.comments content).change? mode content).isSome =
        mode.keepsContent := by
  cases decided : ofContent s.markers s.comments content with
  | keep =>
    rw [decided] at h
    cases h
  | delete =>
    rw [decided] at h
    cases h
  | replace left removed spans =>
    obtain ⟨-, -, count, some⟩ := ofContent_eq_replace_iff.1 decided
    obtain rfl : removed = n := by simpa [decided, outcome] using h
    refine ⟨count.symm, ?_, ?_⟩
    · rw [count]
      exact List.length_pos_iff.2 some
    · cases keeps : mode.keepsContent <;> simp [change?, keeps]

/-- A decision that counts no snippet has nothing to show. -/
theorem Decision.nothing_of_outcome {d : Decision} (h : ∀ n, d.outcome ≠ .snippetsRemoved n) :
    d.spans = [] ∧ d.change? mode content = none := by
  cases d with
  | keep => exact ⟨rfl, rfl⟩
  | delete => exact ⟨rfl, rfl⟩
  | replace left removed spans => exact absurd rfl (h removed)

/-- The report on a content names the file and fits the decision on the content, carried out or
not. -/
theorem agrees_treatContent (t : FileTree) (path content : String) (s : Settings) (mode : RunMode) :
    (treatContent t path content s mode).1.file = path ∧
      (treatContent t path content s mode).1.Agrees mode.keepsContent := by
  unfold treatContent
  dsimp only
  split
  · refine ⟨rfl, ?_⟩
    constructor
    case snippets =>
      rintro n (done | meant)
      · exact Decision.snippets_of_outcome done
      · cases meant
    case others => exact fun none => Decision.nothing_of_outcome fun n => (none n).1
    case intended => exact fun meant => absurd rfl meant
  · refine ⟨rfl, ?_⟩
    constructor
    case snippets =>
      rintro n (done | meant)
      · cases done
      · exact Decision.snippets_of_outcome (Option.some.inj meant)
    case others =>
      exact fun none => Decision.nothing_of_outcome fun n meant => (none n).2 (congrArg some meant)
    case intended => exact fun _ => ⟨_, rfl⟩

/-- The report on a file names it, and agrees in itself. -/
theorem agrees_treatFile (t : FileTree) (path : String) (s : Settings) (mode : RunMode) :
    (treatFile t path s mode).1.file = path ∧
      (treatFile t path s mode).1.Agrees mode.keepsContent := by
  unfold treatFile
  split
  · refine ⟨rfl, ?_, fun _ => ⟨rfl, rfl⟩, fun meant => absurd rfl meant⟩
    rintro n (done | meant)
    · cases done
    · cases meant
  · rename_i content read
    exact agrees_treatContent t path content s mode

end

/-! ### Whole runs -/

/-- What a run tells adds up. -/
structure RunAccount (files : List String) (earlier : List FileError) (keepsContent : Bool)
    (summary : Summary) : Prop where
  /-- There is a report for each file, in order. -/
  files : summary.reports.map (·.file) = files
  accounts : summary.Accounts earlier
  exact : summary.Countable → summary.Exact
  /-- The snippets are the spans of the files that lost some. -/
  spans : ((summary.reportsOf .rewritten).map (·.outcome.snippets)).sum =
    ((summary.reportsOf .rewritten).map (·.spans.length)).sum
  agree : ∀ r ∈ summary.reports, r.Agrees keepsContent

/-- In reports that agree in themselves, the snippets are the spans. -/
theorem sum_snippets_eq {summary : Summary} {keeps : Bool}
    (agree : ∀ r ∈ summary.reports, r.Agrees keeps) :
    ((summary.reportsOf .rewritten).map (·.outcome.snippets)).sum =
      ((summary.reportsOf .rewritten).map (·.spans.length)).sum := by
  refine congrArg List.sum (List.map_congr_left fun r mem => ?_)
  obtain ⟨listed, kind⟩ := List.mem_filter.1 mem
  cases outcome : r.outcome with
  | snippetsRemoved n => exact ((agree r listed).snippets n (.inl outcome)).1.symm
  | removed | unchanged | error _ => simp [outcome, Outcome.kind] at kind

/-- The reports on files name them in order, and agree in themselves. -/
theorem agrees_of_forall₂ {s : Settings} {mode : RunMode} {paths : List String}
    {rs : List FileReport}
    (each : List.Forall₂ (fun path r => ∃ t, r = (treatFile t path s mode).1) paths rs) :
    rs.map (·.file) = paths ∧ ∀ r ∈ rs, r.Agrees mode.keepsContent := by
  induction each with
  | nil => exact ⟨rfl, by simp⟩
  | cons one _ ih =>
    obtain ⟨t, rfl⟩ := one
    obtain ⟨file, agrees⟩ := agrees_treatFile t _ s mode
    exact ⟨by rw [List.map_cons, file, ih.1], List.forall_mem_cons.2 ⟨agrees, ih.2⟩⟩

/-- Files that are processed add up. -/
theorem runAccount_treatFiles (t : FileTree) (s : Settings) (mode : RunMode) (paths : List String)
    (dry : Bool) (earlier : List FileError) :
    RunAccount paths earlier mode.keepsContent
      (treatFiles s mode paths ({ dryRun := dry, errors := earlier }, t)).1 := by
  obtain ⟨rs, told, each⟩ :=
    exists_forall₂_treatFiles s mode paths ({ dryRun := dry, errors := earlier }, t)
  have reports : (rs.foldl Summary.add { dryRun := dry, errors := earlier }).reports = rs := by
    rw [Summary.reports_foldl_add, List.nil_append]
  obtain ⟨files, agree⟩ := agrees_of_forall₂ each
  have accounts := (Summary.accounts_of_no_reports dry earlier).foldl_add rs
  rw [told]
  exact ⟨by rw [reports, files], accounts, accounts.exact, sum_snippets_eq (by rwa [reports]),
    by rwa [reports]⟩

/-- A run adds up. -/
theorem exists_runAccount {t after : FileTree} {root : String} {s : Settings} {mode : RunMode}
    {summary : Summary} (done : run t root s mode = (.ok summary, after)) :
    ∃ found, discover t root s.scan = .ok found ∧
      RunAccount (found.files.map (below root)) (found.fileErrors root) mode.keepsContent
        summary := by
  obtain ⟨-, found, discovered, processed⟩ := run_eq_ok_iff.1 done
  have account := runAccount_treatFiles t s mode (found.files.map (below root)) mode.dryRun
    (found.fileErrors root)
  rw [processed] at account
  exact ⟨found, discovered, account⟩

/-- **What is told adds up.** The counters account for the reports after every one that is recorded,
the report on any content agrees in itself wherever it was read, and a run records one for each file
that it discovers, after the errors of the discovery. -/
theorem run_accounts :
    (∀ (dry : Bool) (earlier : List FileError) (rs : List FileReport),
      let summary := rs.foldl Summary.add { dryRun := dry, errors := earlier }
      summary.reports = rs ∧ summary.Accounts earlier ∧ (summary.Countable → summary.Exact)) ∧
    (∀ (t : FileTree) (path content : String) (s : Settings) (mode : RunMode),
      (treatContent t path content s mode).1.file = path ∧
        (treatContent t path content s mode).1.Agrees mode.keepsContent) ∧
    ∀ (t : FileTree) (root : String) (s : Settings) (mode : RunMode) (summary : Summary)
      (after : FileTree), run t root s mode = (.ok summary, after) →
      ∃ found, discover t root s.scan = .ok found ∧
        RunAccount (found.files.map (below root)) (found.fileErrors root) mode.keepsContent
          summary := by
  refine ⟨fun dry earlier rs => ?_, agrees_treatContent,
    fun t root s mode summary after => exists_runAccount⟩
  have accounts := (Summary.accounts_of_no_reports dry earlier).foldl_add rs
  refine ⟨?_, accounts, accounts.exact⟩
  rw [Summary.reports_foldl_add, List.nil_append]

/-- Two files with a snippet, one of which must not be written, a link to the directory around them,
a licensed file and one that is no text. -/
def mixedTree : FileTree :=
  let snippet := "fn main() {}\n// SPDX-SnippetBegin\n" ++
    "// SPDX-License-Identifier: LicenseRef-SEL\n// SPDX-SnippetEnd\n"
  { entries :=
      [(["src"], .directory), (["lib.rs", "src"], .file snippet.toUTF8), (["loop", "src"], .link "."),
        (["main.rs", "src"], .file snippet.toUTF8),
        (["old.rs", "src"], .file "// SPDX-License-Identifier: LicenseRef-SEL\n".toUTF8),
        (["raw.rs", "src"], .file ⟨#[255]⟩)]
    refusals := fun loc access =>
      if loc = ["main.rs", "src"] ∧ access = .write then some .denied else none }

/-- Of three failures one comes from the discovery, one from a read, and one from a write, which is
told with what was meant. -/
theorem run_accounts_mixedTree :
    let cycle : FileError := ⟨"src/loop", (Fault.linkCycle "src/loop").message⟩
    ∃ summary after, run mixedTree "src" {} ⟨false, true⟩ = (.ok summary, after) ∧
      summary.filesScanned = 4 ∧ summary.filesRemoved = 1 ∧ summary.snippetsRemoved = 1 ∧
      summary.errors.length = 3 ∧
      (∃ r ∈ summary.reports, r.intended = some (.snippetsRemoved 1)) ∧ summary.Exact ∧
      RunAccount ["src/lib.rs", "src/main.rs", "src/old.rs", "src/raw.rs"] [cycle] true summary := by
  intro cycle
  let found : Discovery := ⟨[["lib.rs"], ["main.rs"], ["old.rs"], ["raw.rs"]], [(["loop"], .cycle)]⟩
  let paths := ["src/lib.rs", "src/main.rs", "src/old.rs", "src/raw.rs"]
  have here : mixedTree.isDirectory "src" = true := by decide
  have walked : ((scope? mixedTree "src" ({} : Settings).scan).map Scope.walk).toOption.map
      (fun w => (w.files, w.errors)) = some (found.files, found.errors) := by
    decide +kernel
  have discovered : discover mixedTree "src" ({} : Settings).scan = .ok found :=
    discover_eq_of_walk walked (by decide)
  have spelled : found.files.map (below "src") = paths := by decide
  have earlier : found.fileErrors "src" = [cycle] := by decide
  let result := treatFiles {} ⟨false, true⟩ paths ({ errors := [cycle] }, mixedTree)
  have done : run mixedTree "src" {} ⟨false, true⟩ = (.ok result.1, result.2) := by
    refine run_eq_ok_iff.2 ⟨here, found, discovered, ?_⟩
    rw [spelled, earlier]
  obtain ⟨found', discovered', account⟩ := run_accounts.2.2 _ _ _ _ _ _ done
  obtain rfl : found = found' := Except.ok.inj (discovered.symm.trans discovered')
  rw [spelled, earlier] at account
  have told : result.1.filesScanned = 4 ∧ result.1.filesRemoved = 1 ∧
      result.1.snippetsRemoved = 1 ∧ result.1.errors.length = 3 ∧
      ∃ r ∈ result.1.reports, r.intended = some (.snippetsRemoved 1) := by
    decide +kernel
  have countable : result.1.reports.length < UInt64.size ∧
      ((result.1.reportsOf .rewritten).map (·.outcome.snippets)).sum < UInt64.size := by
    decide +kernel
  obtain ⟨scanned, removed, snippets, errors, meant⟩ := told
  exact ⟨result.1, result.2, done, scanned, removed, snippets, errors, meant,
    account.exact ⟨countable.1, countable.2⟩, account⟩

end Expunge
