import Expunge.Proofs.Run.FoundFile
import Expunge.Proofs.Run.Steps

/-!
# What a run spares

Links may lead from anywhere to anywhere, and a run reads each file in the tree that the files
before it left. Still it makes nothing new, takes away only what its paths name themselves and
writes only to the files that they led to at first (`run_spares`): in a tree that files and links to
files are taken from, a path leads where it led before or nowhere.
-/

namespace Expunge
set_option autoImplicit false
open FileTree Expunge.Path

variable {t t' t'' : FileTree} {s : Settings} {mode : RunMode} {paths : List String}
  {path root : String} {loc l : Location} {bytes b b' : ByteArray} {left : Option Entry}
  {name : FileName} {dir : Location}

/-- What an entry of a directory leads to, links followed. -/
def FileTree.behind? (t : FileTree) (name : FileName) (dir : Location) : Option Entry :=
  match t.follow false maxLinks dir [name] with
  | .ok (.taken loc) => t.get? loc
  | .ok (.vacant _) | .error _ => none

theorem FileTree.Leads.behind? (h : t.Leads maxLinks dir [name] loc) :
    t.behind? name dir = t.get? loc := by
  rw [FileTree.behind?, h.follow_eq]

/-- How a tree may differ from what it was before some paths were processed. -/
structure Spares (t : FileTree) (paths : List String) (t' : FileTree) : Prop where
  /-- Nothing is new: at most a file has other bytes than before. -/
  old : ∀ loc e, t'.get? loc = some e → ∃ e', t.get? loc = some e' ∧ e.Alike e'
  directories : ∀ loc, t.get? loc = some .directory → t'.get? loc = some .directory
  /-- A link to a directory is left, and so is one that leads nowhere. -/
  links : ∀ name dir target, t.get? (name :: dir) = some (.link target) →
    (∀ bytes, t.behind? name dir ≠ some (.file bytes)) → t'.get? (name :: dir) = some (.link target)
  /-- What is gone is what a path names itself, be it a file or a link to one. -/
  gone : ∀ loc, t.get? loc ≠ none → t'.get? loc = none → ∃ path ∈ paths,
    t.namedPlace path = .ok loc ∧ ∃ l bytes, t.find path = .ok (.file l bytes)
  /-- A file with other bytes is one that a path led to. -/
  changed : ∀ loc bytes bytes', t.get? loc = some (.file bytes) →
    t'.get? loc = some (.file bytes') → bytes' ≠ bytes →
    ∃ path ∈ paths, t.find path = .ok (.file loc bytes)

theorem Spares.refl (t : FileTree) (paths : List String) : Spares t paths t where
  old _ e here := ⟨e, here, .refl e⟩
  directories _ here := here
  links _ _ _ here _ := here
  gone _ some none := absurd none some
  changed _ _ _ here now other := absurd (Entry.file.inj (Option.some.inj (now.symm.trans here))) other

/-! ### One file -/

namespace Carried

/-- What is gone is what the path names. -/
theorem namedPlace_of_gone (h : Carried t path loc bytes left t')
    (found : t.find path = .ok (.file loc bytes)) (here : t.get? l ≠ none)
    (gone : t'.get? l = none) : t.namedPlace path = .ok l := by
  cases h with
  | kept => exact absurd gone here
  | taken place last =>
    rw [get?_erase last.not_directory] at gone
    split at gone
    · rename_i same
      exact same ▸ place
    · exact absurd gone here
  | written bytes' =>
    rw [get?_put_file (get?_of_find_eq_file found)] at gone
    split at gone
    · cases gone
    · exact absurd gone here

/-- A file with other bytes is the one that the path leads to. -/
theorem eq_of_changed (h : Carried t path loc bytes left t')
    (found : t.find path = .ok (.file loc bytes)) (here : t.get? l = some (.file b))
    (now : t'.get? l = some (.file b')) (other : b' ≠ b) : l = loc := by
  have unchanged : t'.get? l ≠ t.get? l := by simp [here, now, other]
  cases h with
  | kept => exact absurd rfl unchanged
  | taken place last => exact absurd ((get?_of_erase now).trans now.symm).symm unchanged
  | written bytes' =>
    rw [get?_put_file (get?_of_find_eq_file found)] at unchanged
    by_contra apart
    rw [if_neg apart] at unchanged
    exact unchanged rfl

end Carried

/-- A file is carried out, or the tree is left alone. -/
theorem carried_or_eq (t : FileTree) (path : String) (s : Settings) (mode : RunMode) :
    (treatFile t path s mode).2 = t ∨
      ∃ loc bytes left, t.find path = .ok (.file loc bytes) ∧
        Carried t path loc bytes left (treatFile t path s mode).2 := by
  by_cases file : ∃ loc bytes, t.find path = .ok (.file loc bytes)
  · obtain ⟨loc, bytes, found⟩ := file
    cases dry : mode.dryRun with
    | true => exact .inl (treatFile_dry t path s mode dry)
    | false =>
      rcases treatFile_real_cases found s mode dry with ⟨-, -, same⟩ | ⟨-, carried⟩
      · exact .inl same
      · exact .inr ⟨loc, bytes, _, found, carried⟩
  · obtain ⟨fault, told⟩ := exists_treatFile_eq_of_not_file s mode
      fun loc bytes found => file ⟨loc, bytes, found⟩
    exact .inl (by rw [told])

/-- More is gone or changed after one path more, if it is what that path names or led to. -/
theorem Spares.carried (h : Spares t paths t') (reduces : t.Reduces t')
    (found : t'.find path = .ok (.file loc bytes)) (step : Carried t' path loc bytes left t'') :
    Spares t (paths ++ [path]) t'' := by
  have both : t.Reduces t'' := reduces.trans (step.reduces found)
  obtain ⟨first, before⟩ := reduces.exists_find found
  have named : ∀ l, t'.get? l ≠ none → t''.get? l = none → t.namedPlace path = .ok l :=
    fun l here gone => reduces.namedPlace (step.namedPlace_of_gone found here gone)
  constructor
  case old => exact both.part
  case directories => exact both.directory
  case links =>
    intro name dir target here noFile
    have still := h.links name dir target here noFile
    cases now : t''.get? (name :: dir) with
    | none =>
      -- the path names the link, so the link leads to a file
      have place := named _ (by simp [still]) now
      exact absurd ((leads_of_namedPlace before place).behind?.trans (get?_of_find_eq_file before))
        (noFile first)
    | some e =>
      obtain ⟨e', here', like⟩ := both.part _ e now
      obtain rfl : Entry.link target = e' := by simpa [here] using here'
      cases like
      rfl
  case gone =>
    intro l here now
    cases middle : t'.get? l with
    | none =>
      obtain ⟨p, mem, place⟩ := h.gone l here middle
      exact ⟨p, by simp [mem], place⟩
    | some e => exact ⟨path, by simp, named l (by simp [middle]) now, loc, first, before⟩
  case changed =>
    intro l old new here now other
    obtain ⟨e, middle, like⟩ := (step.reduces found).part l _ now
    obtain ⟨b, rfl⟩ : ∃ b, e = .file b := by
      cases like with
      | refl => exact ⟨_, rfl⟩
      | file _ b => exact ⟨b, rfl⟩
    by_cases same : b = old
    · obtain rfl := step.eq_of_changed found middle now (same ▸ other)
      refine ⟨path, by simp, ?_⟩
      rw [before, Entry.file.inj (Option.some.inj ((get?_of_find_eq_file before).symm.trans here))]
    · obtain ⟨p, mem, place⟩ := h.changed l old b here middle same
      exact ⟨p, by simp [mem], place⟩

/-! ### A whole run -/

/-- Processing files one after the other takes and changes nothing but what their paths say. -/
theorem spares_treatFiles (start : Summary) :
    t.Reduces (treatFiles s mode paths (start, t)).2 ∧
      Spares t paths (treatFiles s mode paths (start, t)).2 := by
  induction paths using List.reverseRecOn with
  | nil => exact ⟨.refl t, .refl t []⟩
  | append_singleton paths path ih =>
    obtain ⟨reduces, spares⟩ := ih
    rw [treatFiles_concat]
    generalize treatFiles s mode paths (start, t) = done at reduces spares ⊢
    show t.Reduces (treatFile done.2 path s mode).2 ∧
      Spares t (paths ++ [path]) (treatFile done.2 path s mode).2
    rcases carried_or_eq done.2 path s mode with same | ⟨loc, bytes, left, found, carried⟩
    · rw [same]
      refine ⟨reduces, { spares with gone := ?_, changed := ?_ }⟩
      · intro l here now
        obtain ⟨p, mem, place⟩ := spares.gone l here now
        exact ⟨p, by simp [mem], place⟩
      · intro l old new here now other
        obtain ⟨p, mem, place⟩ := spares.changed l old new here now other
        exact ⟨p, by simp [mem], place⟩
    · exact ⟨reduces.trans (carried.reduces found), spares.carried reduces found carried⟩

/-- The tree after a run. -/
def treeAfter (t : FileTree) (root : String) (s : Settings) (mode : RunMode) : FileTree :=
  (run t root s mode).2

/-- **A run spares what its paths do not name or lead to**, whatever links there are. A run that is
refused and a dry run change nothing. -/
theorem run_spares (t : FileTree) (root : String) (s : Settings) (mode : RunMode) :
    (∀ found, discover t root s.scan = .ok found →
      Spares t (found.files.map (below root)) (treeAfter t root s mode)) ∧
    ((∃ fault, (run t root s mode).1 = .error fault) ∨ mode.dryRun = true →
      treeAfter t root s mode = t) := by
  unfold treeAfter
  constructor
  · intro found discovered
    cases ran : run t root s mode with
    | mk result after =>
      cases result with
      | error fault =>
        obtain ⟨-, rfl⟩ := run_eq_error_iff.1 ran
        exact .refl after _
      | ok summary =>
        obtain ⟨-, found', discovered', processed⟩ := run_eq_ok_iff.1 ran
        obtain rfl := Except.ok.inj (discovered.symm.trans discovered')
        exact congrArg Prod.snd processed ▸ (spares_treatFiles _).2
  · rintro (⟨fault, refused⟩ | dry)
    · exact (run_eq_error_iff.1 (Prod.ext refused rfl)).2
    · exact tree_of_run_dry dry

/-- Links to files outside the root, one licensed as a whole and one with a licensed snippet, a link
to a directory, one that leads nowhere and one that leads to itself. -/
def tangledTree : FileTree where
  entries :=
    [(["src"], .directory), (["lib"], .directory), (["doc"], .directory),
      (["a.rs", "src"], .link "../lib/a.rs"), (["b.rs", "src"], .link "../lib/b.rs"),
      (["c.rs", "src"], .link "nowhere"), (["d.rs", "src"], .link "d.rs"),
      (["e.rs", "src"], .link "../doc"),
      (["a.rs", "lib"], .file "// SPDX-License-Identifier: LicenseRef-SEL\n".toUTF8),
      (["b.rs", "lib"], .file ("fn main() {}\n// SPDX-SnippetBegin\n" ++
        "// SPDX-License-Identifier: LicenseRef-SEL\n// SPDX-SnippetEnd").toUTF8)]

/-- The link to the licensed file is taken away and not the file, the file with the snippet is
written through its link, and the other links are left. -/
theorem run_spares_tangledTree :
    let after := treeAfter tangledTree "src" {} {}
    Spares tangledTree ["src/a.rs", "src/b.rs"] after ∧
    (after.get? ["a.rs", "src"]).isNone ∧ (after.get? ["a.rs", "lib"]).isSome ∧
    after.get? ["b.rs", "lib"] = some (.file "fn main() {}".toUTF8) ∧
    ∀ name ∈ ["b.rs", "c.rs", "d.rs", "e.rs"],
      (after.get? [name, "src"]).any Entry.isLink = true := by
  intro after
  have here : tangledTree.isDirectory "src" = true := by decide
  have walked : ((scope? tangledTree "src" ({} : Settings).scan).map Scope.walk).toOption.map
      (fun w => (w.files, w.errors)) = some ([["a.rs"], ["b.rs"]], []) := by
    decide +kernel
  have spared := (run_spares tangledTree "src" {} {}).1 _ (discover_eq_of_walk walked (by decide))
  let processed := treatFiles {} {} ["src/a.rs", "src/b.rs"] ({}, tangledTree)
  have done : run tangledTree "src" {} {} = (.ok processed.1, processed.2) :=
    run_eq_of_walk here walked (by decide) (by decide) rfl rfl
  have left : after = processed.2 := by rw [show after = treeAfter _ _ _ _ from rfl, treeAfter, done]
  refine ⟨spared, ?_⟩
  rw [left]
  decide +kernel

end Expunge
