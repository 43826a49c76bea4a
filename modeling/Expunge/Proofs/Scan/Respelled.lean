import Expunge.Proofs.Files.Respelled
import Expunge.Proofs.Scan.Monotone

/-!
# A walk from another spelling of its root

Rules and patterns are matched against paths below the root, and below every spelling of the root the
same is found, so walks from two spellings go in lockstep (`restricts_respelled`) and a discovery is
the same (`discover_respelled`). This needs the paths from the other spelling to be short enough to
be asked for (`Scope.Fits`).
-/

namespace Expunge
set_option autoImplicit false
open Expunge.Path

variable {t : FileTree} {p q root : String} {scan : ScanSettings} {rel : RelPath} {name : FileName}
  {top : Location}

/-- Rules are matched against the path below the root, unless the root is dots alone. -/
theorem ignoreText_of_hasStep (step : HasStep root) (rel : RelPath) :
    ignoreText root rel = below "" rel := by
  unfold ignoreText
  split
  · rename_i rest spelled
    rw [if_neg]
    intro dots
    have parts : segments root = "." :: (rest.splitOn '/').map String.ofList :=
      segments_of_toList_eq ['.'] rest spelled
    obtain ⟨part, mem, some, notDot⟩ := step
    rw [parts] at mem
    obtain ⟨piece, inside, rfl⟩ := List.mem_map.1 ((List.mem_cons.1 mem).resolve_left notDot)
    rw [spellsHere, Bool.and_eq_true] at dots
    have dot := List.all_eq_true.1 dots.2 piece inside
    rw [Bool.or_eq_true, decide_eq_true_eq, decide_eq_true_eq] at dot
    rcases dot with rfl | rfl
    · exact some rfl
    · exact notDot rfl
  · rfl

/-- An ignore file that is found under both spellings or under none holds the same rules. -/
theorem ignoreRulesAt_congr
    (same : ∀ found, t.find (join q ".gitignore") = .ok found ↔
      t.find (join p ".gitignore") = .ok found) : ignoreRulesAt t q = ignoreRulesAt t p := by
  cases here : t.find (join p ".gitignore") with
  | ok found =>
    simp only [ignoreRulesAt, FileTree.readBytes, (same found).2 here, here]
  | error cause =>
    cases there : t.find (join q ".gitignore") with
    | ok found =>
      rw [(same found).1 there] at here
      cases here
    | error cause' =>
      simp only [ignoreRulesAt, FileTree.readBytes, here, there, bind, Except.bind]

/-- A restriction that keeps every file changes nothing. -/
theorem WalkState.restrict_true (w : WalkState) : w.restrict (fun _ => true) = w := by
  rw [restrict, List.filter_true]

/-- The names lead from a root to a path that can be asked for. -/
structure AskedFrom (q : String) (rel : RelPath) : Prop where
  named : ∀ n ∈ rel, IsFileName n
  proper : rel ≠ []
  short : (below q rel).utf8ByteSize < FileTree.maxPath

namespace Scope

/-- What the walk comes to, and what leads somewhere, has a path below another spelling of the root
that is short enough to be asked for. -/
def Fits (s : Scope) (q : String) : Prop :=
  ∀ rel, s.Meets rel → (s.find rel).isOk = true → (below q rel).utf8ByteSize < FileTree.maxPath

variable {s : Scope}

/-- What is found in the root is an entry that the walk meets. -/
theorem meets_of_find (here : s.find [] = .ok (.directory top)) (named : IsFileName name)
    (found : (s.find [name]).isOk = true) : s.Meets [name] := by
  obtain ⟨place, leads⟩ := exists_of_isOk found
  obtain ⟨around, links, resolved, route⟩ :=
    FileTree.exists_resolve_directory named (FileTree.ne_empty_of_find here)
      (FileTree.resolve_of_find leads)
  have same : Except.ok (Place.taken top) = Except.ok (Place.taken around) :=
    (FileTree.resolve_of_find here).symm.trans resolved
  cases same
  have entry : s.tree.get? (name :: top) ≠ none := by
    rcases route.entry_cases named.toIsName with ⟨there, -⟩ | ⟨_, there, -⟩ | ⟨_, _, there, -⟩ <;>
      simp [there]
  show s.Meets ([] ++ [name])
  exact meets_concat_iff.2 ⟨top, lists_root here, FileTree.mem_children_iff.2 entry⟩

/-- The files of a discovery can be asked for from another spelling of the root. -/
theorem askedFrom_of_mem_discover (fits : s.Fits q) (found : rel ∈ s.discover.files) : AskedFrom q rel := by
  obtain ⟨-, proper, loc, bytes, file⟩ := s.discover_files.2 rel found
  obtain ⟨meets, -⟩ := mem_files_walk_iff.1 (mem_files_discover.1 found)
  exact ⟨meets.isFileName, proper, fits rel meets (by rw [file]; rfl)⟩

/-- Entries that the walk meets are found under both spellings or under none. -/
theorem find_eq_ok_iff_of_meets (fits : s.Fits q) (spelled : Respells s.root q)
    (step : HasStep s.root) (meets : s.Meets rel) (found : Found) :
    s.tree.find (below q rel) = .ok found ↔ s.find rel = .ok found := by
  have proper : rel ≠ [] := by
    obtain ⟨dir, name, loc, rfl, -⟩ := meets
    simp
  exact FileTree.find_eq_ok_iff_respelled spelled step (meets.isFileName) proper
    (fits rel meets)

end Scope

section
variable {includes : Glob.Selection} {fileRules excludes : List Glob.IgnoreRule}
  (spelled : Respells p q) (step : HasStep p) (here : t.find p = .ok (.directory top))
include spelled step here

/-- The ignore file of the root is the same. -/
theorem ignoreRulesAt_respelled (fits : (scopeOf t p includes fileRules excludes).Fits q) :
    ignoreRulesAt t q = ignoreRulesAt t p := by
  have plain : IsFileName ".gitignore" := by decide
  have same : ∀ found, t.find (below q [".gitignore"]) = .ok found ↔
      t.find (below p [".gitignore"]) = .ok found := by
    intro found
    refine FileTree.find_eq_ok_iff_respelled spelled step (by simpa using plain)
      (List.cons_ne_nil ".gitignore" []) fun there => fits _ ?_ there
    exact Scope.meets_of_find here plain there
  exact ignoreRulesAt_congr same

variable (short : q.utf8ByteSize < FileTree.maxPath)
include short

/-- Scopes of two spellings of a root make the same of what a walk meets. -/
theorem restricts_respelled (fits : (scopeOf t p includes fileRules excludes).Fits q) :
    Scope.Restricts (fun _ => true) (scopeOf t p includes fileRules excludes)
      (scopeOf t q includes fileRules excludes) where
  tree := rfl
  root := ((FileTree.find_eq_directory_iff_respelled spelled step short).2 here).trans here.symm
  find _ meets found := Scope.find_eq_ok_iff_of_meets fits spelled step meets found
  key := by
    intro rel loc comes there
    have there' : t.find (below q rel) = .ok (.directory loc) := by
      obtain rfl | meets := comes
      · exact (FileTree.find_eq_directory_iff_respelled spelled step short).2 there
      · exact (Scope.find_eq_ok_iff_of_meets fits spelled step meets _).2 there
    have same : t.canonicalize (below q rel) = t.canonicalize (below p rel) :=
      FileTree.canonicalize_respelled spelled step comes.isFileName there there'
    simp only [Scope.key, scopeOf, same]
  ignores := by
    funext rel isDirectory
    simp only [scopeOf, ignoreText_of_hasStep step, ignoreText_of_hasStep (spelled.hasStep step)]
  selects _ := (Bool.and_true _).symm

/-- **A discovery from another spelling of the root is the same.** -/
theorem discover_respelled (fits : ∀ s, scope? t p scan = .ok s → s.Fits q) :
    discover t q scan = discover t p scan := by
  cases compiled : Glob.Selection.ofPatterns scan.includes with
  | error cause => rw [discover, discover, scope?, scope?, compiled]
  | ok includes =>
    cases read : Glob.rulesOfSettings scan.excludes with
    | error cause => rw [discover, discover, scope?, scope?, compiled, read]
    | ok excludes =>
      have fits := fits (scopeOf t p includes (fileRulesOf t p scan) excludes)
        (by rw [scope?, compiled, read]; rfl)
      have file : ignoreRulesAt t q = ignoreRulesAt t p :=
        ignoreRulesAt_respelled spelled step here fits
      have rules : fileRulesOf t q scan = fileRulesOf t p scan := by
        rw [fileRulesOf, fileRulesOf, file]
      have walked := (restricts_respelled spelled step here short fits).walk_eq
      rw [WalkState.restrict_true] at walked
      rw [discover_eq compiled read, discover_eq compiled read, rules, Scope.discover,
        Scope.discover, walked]

end

end Expunge
