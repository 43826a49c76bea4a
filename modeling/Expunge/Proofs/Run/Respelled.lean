import Expunge.Proofs.Run.Account
import Expunge.Proofs.Scan.Respelled

/-!
# A run on another spelling of its root

A run on `src//.` does what a run on `src` does: it finds the same files, reads the same and leaves
the same tree, and it tells the same of them in the same order, each under its path from the other
spelling (`run_respelled`). A spelling that makes a path too long to be asked for is the only one
that matters (`run_ne_of_long_spelling`).
-/

namespace Expunge
set_option autoImplicit false
open Expunge.Path FileTree

/-! ### Telling the same of another path -/

/-- The messages differ in a path alone. -/
def TellsAlike (path path' message message' : String) : Prop :=
  ∃ before behind, message = before ++ path ++ behind ∧ message' = before ++ path' ++ behind

/-- The same outcome, or the same error told of another path. -/
inductive Outcome.Alike (path path' : String) : Outcome → Outcome → Prop
  | removed : Alike path path' .removed .removed
  | snippetsRemoved (count : Nat) :
    Alike path path' (.snippetsRemoved count) (.snippetsRemoved count)
  | unchanged : Alike path path' .unchanged .unchanged
  | error {message message' : String} (told : TellsAlike path path' message message') :
    Alike path path' (.error message) (.error message')

/-- The paths spell the same names below two roots, and read the same from there. -/
structure SamePlace (p q path path' : String) : Prop where
  spelled : ∃ rel, (∀ n ∈ rel, IsFileName n) ∧ path = below p rel ∧ path' = below q rel
  printed : relativeTo q path' = relativeTo p path

/-- The same report of a file below two roots. -/
structure FileReport.Alike (p q : String) (r r' : FileReport) : Prop where
  place : SamePlace p q r.file r'.file
  outcome : Outcome.Alike r.file r'.file r.outcome r'.outcome
  intended : r'.intended = r.intended
  spans : r'.spans = r.spans
  change : r'.change = r.change

/-- The same error below two roots. -/
structure FileError.Alike (p q : String) (e e' : FileError) : Prop where
  place : SamePlace p q e.file e'.file
  message : TellsAlike e.file e'.file e.message e'.message

/-- The same counters, reports and errors below two roots, in the same order. -/
structure Summary.Alike (p q : String) (s s' : Summary) : Prop where
  dryRun : s'.dryRun = s.dryRun
  scanned : s'.filesScanned = s.filesScanned
  removed : s'.filesRemoved = s.filesRemoved
  rewritten : s'.filesWithSnippetsRemoved = s.filesWithSnippetsRemoved
  snippets : s'.snippetsRemoved = s.snippetsRemoved
  reports : List.Forall₂ (FileReport.Alike p q) s.reports s'.reports
  errors : List.Forall₂ (FileError.Alike p q) s.errors s'.errors

/-- Runs on two roots end alike: with the same tree and the same told, or for the same reason. -/
inductive RunsAlike (p q : String) :
    Except Fault Summary × FileTree → Except Fault Summary × FileTree → Prop
  | done {summary summary' : Summary} {after after' : FileTree}
      (told : summary.Alike p q summary') (tree : after' = after) :
    RunsAlike p q (.ok summary, after) (.ok summary', after')
  | noDirectory (after : FileTree) :
    RunsAlike p q (.error (.invalidRoot p), after) (.error (.invalidRoot q), after)
  | badSettings (cause : SettingsFault) (after : FileTree) :
    RunsAlike p q (.error (.settings cause), after) (.error (.settings cause), after)

/-- A fault of the file at some path. -/
inductive Fault.OfFile : (String → Fault) → Prop
  | unreadable (cause : IoError) : OfFile (.unreadable · cause)
  | unwritable (cause : IoError) : OfFile (.unwritable · cause)
  | tooLarge (size limit : Nat) : OfFile (.tooLarge · size limit)
  | linkCycle : OfFile .linkCycle

/-- The same result, or the same fault of the file at another path. -/
inductive ResultsAlike {α : Type} (path path' : String) : Except Fault α → Except Fault α → Prop
  | ok (result : α) : ResultsAlike path path' (.ok result) (.ok result)
  | error {fault : String → Fault} (kind : Fault.OfFile fault) :
    ResultsAlike path path' (.error (fault path)) (.error (fault path'))

variable {t : FileTree} {p q path path' root : String} {s : Settings} {mode : RunMode}
  {rel : RelPath} {r r' : FileReport} {told told' : Summary}

/-- A fault of a file names its path once. -/
theorem Fault.OfFile.tellsAlike {fault : String → Fault} (kind : OfFile fault)
    (path path' : String) : TellsAlike path path' (fault path).message (fault path').message := by
  cases kind with
  | unreadable cause =>
    exact ⟨"failed to read `", "`: " ++ cause.message,
      String.append_assoc .., String.append_assoc ..⟩
  | unwritable cause =>
    exact ⟨"failed to write `", "`: " ++ cause.message,
      String.append_assoc .., String.append_assoc ..⟩
  | tooLarge size limit =>
    refine ⟨"file too large: `", "` is " ++ toString size ++ " bytes (limit: " ++ toString limit ++
      " bytes)", ?_, ?_⟩ <;>
    · simp only [← String.append_assoc]
      rfl
  | linkCycle => exact ⟨"symlink cycle detected at: `", "`", rfl, rfl⟩

theorem ResultsAlike.mapError {α : Type} {fault : String → IoError → Fault}
    (kind : ∀ cause, Fault.OfFile (fault · cause)) (result : Except IoError α) :
    ResultsAlike path path' (result.mapError (fault path)) (result.mapError (fault path')) := by
  cases result with
  | ok a => exact .ok a
  | error cause => exact .error (kind cause)

theorem samePlace_below (spelled : Respells p q) (step : HasStep p)
    (named : ∀ n ∈ rel, IsFileName n) : SamePlace p q (below p rel) (below q rel) where
  spelled := ⟨rel, named, rfl, rfl⟩
  printed := by
    rw [relativeTo_below step.ne_empty named, relativeTo_below (spelled.ne_empty step) named]

/-! ### One file -/

section
variable (same : t.SameAt path path')
include same

theorem readWithin_alike (limit : Nat) :
    ResultsAlike path path' (t.readWithin path limit) (t.readWithin path' limit) := by
  have size : t.sizeOf path' = t.sizeOf path := by rw [FileTree.sizeOf, FileTree.sizeOf, same.find]
  have text : t.readText path' = t.readText path := by
    rw [readText, readText, readBytes, readBytes, same.find]
  rw [readWithin, readWithin, size, text]
  cases t.sizeOf path with
  | error cause => exact .error (.unreadable cause)
  | ok size =>
    show ResultsAlike path path' (if limit < size then _ else _) (if limit < size then _ else _)
    split
    · exact .error (.tooLarge size limit)
    · exact .mapError .unreadable _

theorem Decision.perform_alike (d : Decision) :
    ResultsAlike path path' (d.perform t path) (d.perform t path') := by
  cases d with
  | keep => exact .ok t
  | delete =>
    have gone : t.remove path' = t.remove path := by rw [remove, remove, same.namedPlace]
    rw [perform, perform, gone]
    exact .mapError .unwritable _
  | replace content count spans =>
    have written : t.write path' content = t.write path content := by
      rw [write, write, writeBytes, writeBytes, same.writePlace]
    rw [perform, perform, written]
    exact .mapError .unwritable _

theorem Decision.apply_alike (d : Decision) (dry : Bool) :
    ResultsAlike path path' (d.apply dry t path) (d.apply dry t path') := by
  rw [apply, apply]
  split
  · exact .ok t
  · exact d.perform_alike same

variable (place : SamePlace p q path path')
include place

theorem treatContent_alike (content : String) (s : Settings) (mode : RunMode) :
    FileReport.Alike p q (treatContent t path content s mode).1
        (treatContent t path' content s mode).1 ∧
      (treatContent t path' content s mode).2 = (treatContent t path content s mode).2 := by
  have outcome : ∀ d : Decision, Outcome.Alike path path' d.outcome d.outcome := by
    intro d
    cases d with
    | keep => exact .unchanged
    | delete => exact .removed
    | replace left count spans => exact .snippetsRemoved count
  have done := (Decision.ofContent s.markers s.comments content).apply_alike same mode.dryRun
  simp only [treatContent]
  generalize (Decision.ofContent s.markers s.comments content).apply mode.dryRun t path = result,
    (Decision.ofContent s.markers s.comments content).apply mode.dryRun t path' = result' at done
  cases done with
  | ok t' => exact ⟨⟨place, outcome _, rfl, rfl, rfl⟩, rfl⟩
  | error kind => exact ⟨⟨place, .error (kind.tellsAlike path path'), rfl, rfl, rfl⟩, rfl⟩

/-- A file that is found alike at two paths is treated alike. -/
theorem treatFile_alike (s : Settings) (mode : RunMode) :
    FileReport.Alike p q (treatFile t path s mode).1 (treatFile t path' s mode).1 ∧
      (treatFile t path' s mode).2 = (treatFile t path s mode).2 := by
  have read := readWithin_alike same s.scan.maxFileSize
  unfold treatFile
  generalize t.readWithin path s.scan.maxFileSize = result,
    t.readWithin path' s.scan.maxFileSize = result' at read
  cases read with
  | ok content => exact treatContent_alike same place content s mode
  | error kind => exact ⟨⟨place, .error (kind.tellsAlike path path'), rfl, rfl, rfl⟩, rfl⟩

end

/-! ### Files one after the other -/

/-- Reports that are alike count alike. -/
theorem Summary.Alike.add (h : told.Alike p q told') (one : r.Alike p q r') :
    (told.add r).Alike p q (told'.add r') := by
  have kind : r'.outcome.kind = r.outcome.kind ∧ r'.outcome.snippets = r.outcome.snippets := by
    obtain ⟨-, outcome, -⟩ := one
    generalize r.outcome = o, r'.outcome = o' at outcome
    cases outcome <;> exact ⟨rfl, rfl⟩
  have errors : List.Forall₂ (FileError.Alike p q) r.error?.toList r'.error?.toList := by
    obtain ⟨place, outcome, -⟩ := one
    simp only [FileReport.error?]
    generalize r.outcome = o, r'.outcome = o' at outcome
    cases outcome with
    | error told => exact .cons ⟨place, told⟩ .nil
    | removed | snippetsRemoved _ | unchanged => exact .nil
  exact {
    dryRun := by rw [dryRun_add, dryRun_add, h.dryRun]
    scanned := by rw [filesScanned_add, filesScanned_add, h.scanned]
    removed := by rw [filesRemoved_add, filesRemoved_add, h.removed, kind.1]
    rewritten := by
      rw [filesWithSnippetsRemoved_add, filesWithSnippetsRemoved_add, h.rewritten, kind.1]
    snippets := by rw [snippetsRemoved_add, snippetsRemoved_add, h.snippets, kind.2]
    reports := List.rel_append h.reports (.cons one .nil)
    errors := List.rel_append h.errors errors }

section
variable (spelled : Respells p q) (step : HasStep p)
include spelled step

theorem treatFiles_alike (s : Settings) (mode : RunMode) {files : List RelPath}
    (asked : ∀ rel ∈ files, AskedFrom q rel)
    (before : told.Alike p q told') :
    (treatFiles s mode (files.map (below p)) (told, t)).1.Alike p q
        (treatFiles s mode (files.map (below q)) (told', t)).1 ∧
      (treatFiles s mode (files.map (below q)) (told', t)).2 =
        (treatFiles s mode (files.map (below p)) (told, t)).2 := by
  -- both runs come to each file with the same tree
  induction files generalizing t told told' with
  | nil => exact ⟨before, rfl⟩
  | cons rel files ih =>
    obtain ⟨named, proper, short⟩ := asked rel List.mem_cons_self
    obtain ⟨report, tree⟩ := treatFile_alike (sameAt_respelled spelled step named proper short)
      (samePlace_below spelled step named) s mode (t := t)
    rw [List.map_cons, List.map_cons, treatFiles_cons, treatFiles_cons, tree]
    exact ih (fun rel mem => asked rel (List.mem_cons_of_mem _ mem)) (before.add report)

/-- The errors of a discovery are told alike. -/
theorem fileErrors_alike {found : Discovery}
    (cycles : ∀ rel fault, (rel, fault) ∈ found.errors →
      fault = .cycle ∧ ∀ n ∈ rel, IsFileName n) :
    List.Forall₂ (FileError.Alike p q) (found.fileErrors p) (found.fileErrors q) := by
  rw [Discovery.fileErrors, Discovery.fileErrors, List.forall₂_map_left_iff,
    List.forall₂_map_right_iff, List.forall₂_same]
  rintro ⟨rel, fault⟩ told
  obtain ⟨rfl, named⟩ := cycles rel fault told
  exact ⟨samePlace_below spelled step named, Fault.OfFile.linkCycle.tellsAlike ..⟩

/-! ### Whole runs -/

/-- **The spelling of the root does not matter**: a run on another spelling leaves the same tree and
tells the same, or is refused for the same reason, as long as no path from there gets too long to be
asked for. -/
theorem run_respelled
    (short : t.isDirectory p = true → q.utf8ByteSize < maxPath)
    (fits : ∀ scope, scope? t p s.scan = .ok scope → scope.Fits q) :
    RunsAlike p q (run t p s mode) (run t q s mode) := by
  by_cases here : t.isDirectory p = true
  · obtain ⟨top, place⟩ := isDirectory_iff.1 here
    have there : t.isDirectory q = true :=
      isDirectory_iff.2 ⟨top, (find_eq_directory_iff_respelled spelled step (short here)).2 place⟩
    rw [run, run, if_pos here, if_pos there,
      discover_respelled spelled step place (short here) fits]
    cases made : scope? t p s.scan with
    | error cause =>
      rw [discover, made]
      exact .badSettings cause t
    | ok scope =>
      obtain ⟨rfl, rfl⟩ := tree_of_scope? made
      rw [discover, made]
      have asked : ∀ rel ∈ scope.discover.files, AskedFrom q rel := fun rel found =>
        Scope.askedFrom_of_mem_discover (fits scope made) found
      have cycles : ∀ rel fault, (rel, fault) ∈ scope.discover.errors →
          fault = .cycle ∧ ∀ n ∈ rel, IsFileName n := by
        intro rel fault told
        obtain ⟨cycle, meets⟩ := Scope.cycle_of_mem_errors place told
        exact ⟨cycle, meets.isFileName⟩
      have before : Summary.Alike scope.root q
          { dryRun := mode.dryRun, errors := scope.discover.fileErrors scope.root }
          { dryRun := mode.dryRun, errors := scope.discover.fileErrors q } :=
        ⟨rfl, rfl, rfl, rfl, rfl, .nil, fileErrors_alike spelled step cycles⟩
      obtain ⟨told, tree⟩ := treatFiles_alike spelled step s mode asked before
      exact .done told tree
  · have elsewhere : t.isDirectory q ≠ true := by
      intro there
      obtain ⟨top, place⟩ := isDirectory_iff.1 there
      have short := (checkPath_of_find place).2
      exact here (isDirectory_iff.2
        ⟨top, (find_eq_directory_iff_respelled spelled step short).1 place⟩)
    rw [run, run, if_neg here, if_neg elsewhere]
    exact .noDirectory t

end

/-- The root of the tree is the only directory that is listed: the link leads back to it. -/
theorem eq_nil_of_lists_mixedTree {scope : Scope} {dir : RelPath} {loc : Location}
    (made : scope? mixedTree "src" s.scan = .ok scope) (lists : scope.Lists dir loc) :
    dir = [] ∧ loc = ["src"] := by
  obtain ⟨tree, root⟩ := tree_of_scope? made
  have find : ∀ rel, scope.find rel = mixedTree.find (below "src" rel) := by
    intro rel
    rw [Scope.find, tree, root]
  have top : scope.find [] = .ok (.directory ["src"]) := by
    rw [find]
    rfl
  have short : mixedTree.IsShort := by decide +kernel
  have inner : ∀ n ∈ mixedTree.children ["src"],
      mixedTree.isDirectory (below "src" [n]) = true →
        (mixedTree.find (below "src" [n])).toOption.map Found.loc = some ["src"] := by
    decide +kernel
  induction dir using List.reverseRecOn generalizing loc with
  | nil =>
    have same := lists.find_eq.symm.trans top
    cases same
    exact ⟨rfl, rfl⟩
  | append_singleton dir name ih =>
    obtain ⟨⟨around, outer, entry⟩, -⟩ := lists.of_concat
    obtain ⟨rfl, rfl⟩ := ih outer
    have found := (find _).symm.trans lists.find_eq
    have back := inner name (tree ▸ entry) (isDirectory_iff.2 ⟨loc, found⟩)
    rw [List.nil_append] at found
    rw [found] at back
    obtain rfl : loc = ["src"] := Option.some.inj back
    -- the root is not listed again
    have real : ∀ rel loc, scope.find rel = .ok (.directory loc) → scope.HasRealPath rel :=
      fun _ _ here => Scope.hasRealPath_of_short (tree ▸ short) here
    have one : scope.Identifies ([] ++ [name]) [] :=
      (Scope.identifies_iff_samePlace (real _) (real _)).2 ⟨_, lists.find_eq, top⟩
    obtain ⟨m, first⟩ := Scope.lists_root top
    obtain ⟨m', again⟩ := lists
    have called := again.called
    rw [again.unique first one, first.called] at called
    cases called

/-- A run on the directory with a dot in front of it and with separators and a dot behind it. -/
theorem run_respelled_mixedTree :
    HasStep "src" ∧ Respells "src" "./src//." ∧
      (run mixedTree "src" {} ⟨false, true⟩).1.isOk = true ∧
      RunsAlike "src" "./src//." (run mixedTree "src" {} ⟨false, true⟩)
        (run mixedTree "./src//." {} ⟨false, true⟩) := by
  have step : HasStep "src" := by decide
  have spelled : Respells "src" "./src//." :=
    .here (q := "src//.") (by decide) (.dot (q := "src/") (.slash .same))
  have accepted : (run mixedTree "src" {} ⟨false, true⟩).1.isOk = true :=
    isOk_run (by decide) (by decide +kernel)
  refine ⟨step, spelled, accepted, run_respelled spelled step (fun _ => by decide) ?_⟩
  intro scope made rel meets _
  obtain ⟨tree, -⟩ := tree_of_scope? made
  obtain ⟨dir, name, loc, rfl, lists, entry⟩ := meets
  obtain ⟨rfl, rfl⟩ := eq_nil_of_lists_mixedTree made lists
  have short : ∀ n ∈ mixedTree.children ["src"], (below "./src//." [n]).utf8ByteSize < maxPath := by
    decide +kernel
  exact short name (tree ▸ entry)

/-- A root that is too long to be asked for is refused. -/
theorem run_of_long_root (long : maxPath ≤ root.utf8ByteSize) :
    run t root s mode = (.error (.invalidRoot root), t) := by
  have elsewhere : t.isDirectory root ≠ true := by
    intro there
    obtain ⟨top, place⟩ := isDirectory_iff.1 there
    exact Nat.not_lt.2 long (checkPath_of_find place).2
  rw [run, if_neg elsewhere]

/-- A directory is none with more separators behind it than a path may have bytes. -/
theorem run_ne_of_long_spelling :
    let q := "src" ++ String.ofList (List.replicate 4096 '/')
    let mode : RunMode := { dryRun := true }
    HasStep "src" ∧ Respells "src" q ∧ (run mixedTree "src" {} mode).1.isOk = true ∧
      run mixedTree q {} mode = (.error (.invalidRoot q), mixedTree) ∧
      ¬ RunsAlike "src" q (run mixedTree "src" {} mode) (run mixedTree q {} mode) := by
  intro q mode
  obtain ⟨spelled, long⟩ := Path.respells_slashes "src" 4096
  have accepted : (run mixedTree "src" {} mode).1.isOk = true :=
    isOk_run (by decide) (by decide +kernel)
  have refused : run mixedTree q {} mode = (.error (.invalidRoot q), mixedTree) :=
    run_of_long_root long
  refine ⟨by decide, spelled, accepted, refused, fun alike => ?_⟩
  obtain ⟨summary, done⟩ := exists_of_isOk accepted
  rw [refused, show run mixedTree "src" {} mode = (.ok summary, _) from Prod.ext done rfl] at alike
  cases alike

end Expunge
