import Expunge.Proofs.Run.FoundFile
import Expunge.Proofs.Run.Steps

/-!
# A dry run and a real run

A real run reads each file in the tree that the files before it left. So a dry run, which reads all
of them in the first tree, tells the same, unless two paths lead to one file that is changed
(`run_dry_of_real`). A link beside its target is enough for two such paths
(`run_dry_ne_real_behind_link`), for a listing goes into each directory once, but takes every path
to a file.
-/

namespace Expunge
set_option autoImplicit false
open FileTree Expunge.Path

variable {t t' : FileTree} {s : Settings} {mode : RunMode} {keeps : Bool} {paths : List String}
  {path other root : String} {loc l : Location} {bytes b : ByteArray} {start : Summary}

/-- Two paths lead to one file that a real run changes. -/
def FileTree.sharesChange (t : FileTree) (s : Settings) (path other : String) : Bool :=
  match t.find path, t.find other with
  | .ok (.file loc bytes), .ok (.file loc' _) =>
    loc = loc' ∧ s.fate (t.refusals loc) (.file bytes) ≠ some (.file bytes)
  | _, _ => false

/-- After a file is processed the others are found with the bytes that they had. -/
theorem Carried.find_of_not_sharesChange
    (carried : Carried t path loc bytes (s.fate (t.refusals loc) (.file bytes)) t')
    (found : t.find path = .ok (.file loc bytes)) (elsewhere : t.find other = .ok (.file l b))
    (apart : t.sharesChange s path other = false) : t'.find other = .ok (.file l b) := by
  refine carried.find found elsewhere fun same => ?_
  simpa [FileTree.sharesChange, found, elsewhere, same] using apart

/-! ### One file after the other -/

/-- A real run that carries everything out tells what a dry run tells. -/
theorem summary_treatFiles_real
    (found : ∀ path ∈ paths, ∃ loc bytes, t.find path = .ok (.file loc bytes))
    (apart : paths.Pairwise fun path other => t.sharesChange s path other = false)
    (fine : ∀ r ∈ (treatFiles s ⟨false, keeps⟩ paths (start, t)).1.reports, r.intended = none) :
    (treatFiles s ⟨false, keeps⟩ paths (start, t)).1 =
      (paths.map fun path => (treatFile t path s ⟨true, keeps⟩).1).foldl Summary.add start := by
  -- the tree changes from file to file, and those that are left are found in it as before
  induction paths generalizing t start with
  | nil => rfl
  | cons path paths ih =>
    obtain ⟨first, apart⟩ := List.pairwise_cons.1 apart
    obtain ⟨loc, bytes, here⟩ := found path (by simp)
    rw [treatFiles_cons] at fine ⊢
    rcases treatFile_real_cases here s ⟨false, keeps⟩ rfl with
      ⟨failed, -⟩ | ⟨told, carried⟩
    · obtain ⟨rs, e⟩ := exists_reports_treatFiles s ⟨false, keeps⟩ paths
        (start.add (treatFile t path s ⟨false, keeps⟩).1, (treatFile t path s ⟨false, keeps⟩).2)
      rw [e, Summary.reports_foldl_add, Summary.reports_add] at fine
      exact absurd (fine _ (by simp)) failed
    generalize (treatFile t path s ⟨false, keeps⟩).2 = t' at carried fine ⊢
    have later : ∀ other ∈ paths, ∃ l b, t.find other = .ok (.file l b) ∧
        t'.find other = .ok (.file l b) := by
      intro other mem
      obtain ⟨l, b, elsewhere⟩ := found other (by simp [mem])
      exact ⟨l, b, elsewhere, carried.find_of_not_sharesChange here elsewhere (first other mem)⟩
    have apart' : paths.Pairwise fun p q => t'.sharesChange s p q = false := by
      refine apart.imp_of_mem fun {p q} hp hq none => ?_
      obtain ⟨l, b, before, after⟩ := later p hp
      obtain ⟨l', b', before', after'⟩ := later q hq
      rwa [FileTree.sharesChange, after, after', carried.refusals_eq, ← before, ← before']
    rw [ih (fun q hq => ?_) apart' fine, told,
      List.map_cons, List.foldl_cons, treatFile_dry_eq here rfl]
    · have same : ∀ q ∈ paths, (treatFile t' q s ⟨true, keeps⟩).1 =
          (treatFile t q s ⟨true, keeps⟩).1 := by
        intro q hq
        obtain ⟨l, b, before, after⟩ := later q hq
        rw [treatFile_dry_eq before rfl, treatFile_dry_eq after rfl, carried.refusals_eq]
      rw [List.map_congr_left same]
      rfl
    · obtain ⟨l, b, -, after⟩ := later q hq
      exact ⟨l, b, after⟩

/-- **A dry run tells what a real run tells**, if that carries everything out and no two paths lead
to one file that it changes. -/
theorem run_dry_of_real {summary : Summary} {after : FileTree}
    (done : run t root s ⟨false, keeps⟩ = (.ok summary, after))
    (fine : ∀ r ∈ summary.reports, r.intended = none)
    (apart : ∀ found, discover t root s.scan = .ok found →
      (found.files.map (below root)).Pairwise fun path other => t.sharesChange s path other = false) :
    run t root s ⟨true, keeps⟩ = (.ok { summary with dryRun := true }, t) := by
  obtain ⟨here, found, discovered, processed⟩ := run_eq_ok_iff.1 done
  refine run_eq_ok_iff.2 ⟨here, found, discovered, ?_⟩
  have real : (treatFiles s ⟨false, keeps⟩ (found.files.map (below root))
      ({ dryRun := false, errors := found.fileErrors root }, t)).1 = summary :=
    congrArg Prod.fst processed
  rw [← real] at fine ⊢
  rw [treatFiles_dry_eq rfl, summary_treatFiles_real (exists_find_of_mem_discover discovered)
    (apart found discovered) fine, ← Summary.foldl_add_dryRun]

/-- A licensed file, one that is not, and a link to the second. -/
def linkedTree : FileTree where
  entries :=
    [(["src"], .directory),
      (["a.rs", "src"], .file "// SPDX-License-Identifier: LicenseRef-SEL\n".toUTF8),
      (["b.rs", "src"], .link "c.rs"), (["c.rs", "src"], .file "fn main() {}\n".toUTF8)]

theorem run_dry_of_real_linkedTree :
    ∃ summary after, run linkedTree "src" {} ⟨false, false⟩ = (.ok summary, after) ∧
      summary.filesRemoved = 1 ∧ summary.filesScanned = 3 ∧
      run linkedTree "src" {} ⟨true, false⟩ = (.ok { summary with dryRun := true }, linkedTree) := by
  let summary : Summary :=
    { filesScanned := 3, filesRemoved := 1,
      reports := [{ file := "src/a.rs", outcome := .removed },
        { file := "src/b.rs", outcome := .unchanged }, { file := "src/c.rs", outcome := .unchanged }] }
  have here : linkedTree.isDirectory "src" = true := by decide
  have walked : ((scope? linkedTree "src" ({} : Settings).scan).map Scope.walk).toOption.map
      (fun w => (w.files, w.errors)) = some ([["a.rs"], ["b.rs"], ["c.rs"]], []) := by
    decide +kernel
  have told : (treatFiles {} ⟨false, false⟩ ["src/a.rs", "src/b.rs", "src/c.rs"]
      ({}, linkedTree)).1 = summary := by
    decide +kernel
  have done := run_eq_of_walk here walked (by decide) (by decide) told rfl
  refine ⟨summary, _, done, rfl, rfl, run_dry_of_real done (by decide) ?_⟩
  intro found discovered
  rw [discover_eq_of_walk walked (by decide)] at discovered
  obtain rfl := Except.ok.inj discovered
  decide +kernel

/-- A licensed file and a link to it. -/
def licensedLinkTree : FileTree where
  entries :=
    [(["src"], .directory),
      (["a.rs", "src"], .file "// SPDX-License-Identifier: LicenseRef-SEL\n".toUTF8),
      (["b.rs", "src"], .link "a.rs")]

/-- The real run takes the file away and then cannot read it by the link; the dry run tells that
both are removed. -/
theorem run_dry_ne_real_behind_link :
    let unreadable := (Fault.unreadable "src/b.rs" .notFound).message
    (∃ after, run licensedLinkTree "src" {} ⟨false, false⟩ =
      (.ok { filesScanned := 2, filesRemoved := 1,
             reports := [{ file := "src/a.rs", outcome := .removed },
               { file := "src/b.rs", outcome := .error unreadable }],
             errors := [⟨"src/b.rs", unreadable⟩] }, after)) ∧
    run licensedLinkTree "src" {} ⟨true, false⟩ =
      (.ok { dryRun := true, filesScanned := 2, filesRemoved := 2,
             reports := [{ file := "src/a.rs", outcome := .removed },
               { file := "src/b.rs", outcome := .removed }] }, licensedLinkTree) := by
  intro unreadable
  let paths := ["src/a.rs", "src/b.rs"]
  have here : licensedLinkTree.isDirectory "src" = true := by decide
  have walked : ((scope? licensedLinkTree "src" ({} : Settings).scan).map Scope.walk).toOption.map
      (fun w => (w.files, w.errors)) = some ([["a.rs"], ["b.rs"]], []) := by
    decide +kernel
  have told : (treatFiles {} ⟨false, false⟩ paths ({}, licensedLinkTree)).1 =
      { filesScanned := 2, filesRemoved := 1,
        reports := [{ file := "src/a.rs", outcome := .removed },
          { file := "src/b.rs", outcome := .error unreadable }],
        errors := [⟨"src/b.rs", unreadable⟩] } := by
    decide +kernel
  have foretold : (treatFiles {} ⟨true, false⟩ paths ({ dryRun := true }, licensedLinkTree)).1 =
      { dryRun := true, filesScanned := 2, filesRemoved := 2,
        reports := [{ file := "src/a.rs", outcome := .removed },
          { file := "src/b.rs", outcome := .removed }] } := by
    decide +kernel
  have untouched := treatFiles_dry {} ⟨true, false⟩ paths ({ dryRun := true }, licensedLinkTree) rfl
  have done := run_eq_of_walk here walked (by decide) (by decide) told rfl
  exact ⟨⟨_, done⟩, run_eq_of_walk here walked (by decide) (by decide) foretold untouched⟩

end Expunge
