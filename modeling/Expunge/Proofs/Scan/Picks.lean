import Expunge.Proofs.Files.Update
import Expunge.Proofs.Scan.Walk

/-!
# The files that a walk picks

A walk adds files below the directory where it stands, each of them once, and errors likewise
(`Adds`). One entry adds what is below its name, and different names have nothing below them in
common, so a listing adds each path once, and by the rule of the walk so does the walk
(`adds_files_walkDirectory`, `adds_errors_walkDirectory`).
-/

namespace Expunge
set_option autoImplicit false
open Expunge.Path

/-- The name under which a location stands in a directory. -/
def nameIn? (dir loc : Location) : Option FileName := if loc.tail = dir then loc.head? else none

theorem nameIn?_eq_some_iff {dir loc : Location} {name : FileName} :
    nameIn? dir loc = some name ↔ loc = name :: dir := by
  rw [nameIn?, Option.ite_none_right_eq_some]
  cases loc with
  | nil => simp
  | cons n parent => simp [and_comm]

theorem FileTree.children_eq_filterMap (t : FileTree) (dir : Location) :
    t.children dir = t.entries.filterMap (nameIn? dir ·.1) := by
  unfold children
  apply List.filterMap_congr
  intro p _
  obtain ⟨loc, e⟩ := p
  cases loc with
  | nil => simp [nameIn?]
  | cons name parent => rfl

/-- A listing looks at the locations alone. -/
theorem FileTree.children_eq (t : FileTree) (dir : Location) :
    t.children dir = (t.entries.map (·.1)).filterMap (nameIn? dir) := by
  rw [children_eq_filterMap, List.filterMap_map]
  rfl

/-- The names in a directory are different. -/
theorem FileTree.nodup_children (t : FileTree) (dir : Location) : (t.children dir).Nodup := by
  rw [children_eq]
  apply List.Nodup.filterMap _ t.nodup
  intro loc loc' name here here'
  rw [Option.mem_def, nameIn?_eq_some_iff] at here here'
  rw [here, here']

namespace WalkState

variable {w w' w'' : WalkState} {part : WalkState → List RelPath} {kind kind' : RelPath → Prop}

/-- From one state to another, a part of the state got paths of a kind, each once. -/
def Adds (part : WalkState → List RelPath) (kind : RelPath → Prop) (w w' : WalkState) : Prop :=
  ∃ new, part w' = part w ++ new ∧ new.Nodup ∧ ∀ f ∈ new, kind f

theorem adds_of_eq (same : part w' = part w) : Adds part kind w w' :=
  ⟨[], by rw [same, List.append_nil], .nil, by simp⟩

theorem adds_of_eq_concat {f : RelPath} (one : part w' = part w ++ [f]) (hf : kind f) :
    Adds part kind w w' :=
  ⟨[f], one, by simp, by simpa using hf⟩

theorem Adds.mono (h : Adds part kind w w') (weaker : ∀ f, kind f → kind' f) :
    Adds part kind' w w' := by
  obtain ⟨new, grown, nodup, kinds⟩ := h
  exact ⟨new, grown, nodup, fun f hf => weaker f (kinds f hf)⟩

/-- Paths of different kinds are different. -/
theorem Adds.trans (h : Adds part kind w w') (h' : Adds part kind' w' w'')
    (apart : ∀ f, kind f → ¬ kind' f) : Adds part (fun f => kind f ∨ kind' f) w w'' := by
  obtain ⟨new, grown, nodup, kinds⟩ := h
  obtain ⟨new', grown', nodup', kinds'⟩ := h'
  refine ⟨new ++ new', by rw [grown', grown, List.append_assoc], ?_, fun f hf => ?_⟩
  · refine List.nodup_append.2 ⟨nodup, nodup', fun f hf f' hf' same => ?_⟩
    exact apart f (kinds f hf) (same ▸ kinds' f' hf')
  · rcases List.mem_append.1 hf with hf | hf
    · exact .inl (kinds f hf)
    · exact .inr (kinds' f hf)

/-- A listing adds what its entries add. -/
theorem adds_foldl {kind : FileName → RelPath → Prop} {names : List FileName}
    {step : WalkState → FileName → WalkState}
    (apart : ∀ {name name' f}, kind name f → kind name' f → name = name') (nodup : names.Nodup)
    (each : ∀ name ∈ names, ∀ w, Adds part (kind name) w (step w name)) :
    Adds part (fun f => ∃ name ∈ names, kind name f) w (names.foldl step w) := by
  induction names generalizing w with
  | nil => exact adds_of_eq rfl
  | cons name names ih =>
    obtain ⟨other, rest⟩ := List.nodup_cons.1 nodup
    have first := each name (by simp) w
    have later : Adds part (fun f => ∃ n ∈ names, kind n f) (step w name)
        (names.foldl step (step w name)) := ih rest fun n hn => each n (by simp [hn])
    refine (first.trans later fun f hf hf' => ?_).mono fun f hf => ?_
    · obtain ⟨n, hn, below⟩ := hf'
      exact other (apart hf below ▸ hn)
    · rcases hf with hf | ⟨n, hn, below⟩
      · exact ⟨name, by simp, hf⟩
      · exact ⟨n, by simp [hn], below⟩

end WalkState

namespace Scope
open WalkState

variable {s : Scope} {ancestors : List DirectoryKey} {rel : RelPath} {w : WalkState}

/-- A file that a walk can pick: names lead to it, and it is found. -/
def IsPick (s : Scope) (rel : RelPath) : Prop :=
  (∀ name ∈ rel, IsFileName name) ∧ rel ≠ [] ∧ ∃ loc bytes, s.find rel = .ok (.file loc bytes)

/-- Nothing is below two names of a directory. -/
theorem eq_of_common_start {f : RelPath} {name name' : FileName} (h : rel ++ [name] <+: f)
    (h' : rel ++ [name'] <+: f) : name = name' := by
  have same := (List.prefix_of_prefix_length_le h h' (by simp)).eq_of_length (by simp)
  simpa using same

/-- A walk adds files below its directory, each of them once. -/
theorem adds_files_walkDirectory (s : Scope) (ancestors : List DirectoryKey) (rel : RelPath)
    (w : WalkState) (named : ∀ name ∈ rel, IsFileName name) :
    Adds (·.files) (fun f => rel <+: f ∧ s.IsPick f) w (walkDirectory s ancestors rel w) := by
  refine s.walkDirectory_rule (motive := fun _ rel w w' =>
    (∀ name ∈ rel, IsFileName name) →
      Adds (·.files) (fun f => rel <+: f ∧ s.IsPick f) w w')
    ?refused ?cycle ?visited ?listed ancestors rel w named
  case refused => exact fun _ _ => adds_of_eq rfl
  case cycle => exact fun _ _ _ => adds_of_eq rfl
  case visited => exact fun _ _ _ _ => adds_of_eq rfl
  case listed =>
    intro ancestors rel w loc here fresh unseen down named
    have visit : Adds (·.files) (fun _ => False) w (w.visit (s.key rel)) := adds_of_eq rfl
    have entries : Adds (·.files)
        (fun f => ∃ name ∈ s.tree.children loc, rel ++ [name] <+: f ∧ s.IsPick f)
        (w.visit (s.key rel))
        ((s.tree.children loc).foldl (s.enter (s.key rel :: ancestors) rel)
          (w.visit (s.key rel))) :=
      adds_foldl (fun h h' => eq_of_common_start h.1 h'.1) (s.tree.nodup_children loc)
        fun name hname w => ?_
    · refine (visit.trans entries fun _ h => h.elim).mono fun f hf => ?_
      obtain h | ⟨name, -, start, pick⟩ := hf
      · exact h.elim
      · exact ⟨(List.prefix_append rel [name]).trans start, pick⟩
    · have named' : ∀ n ∈ rel ++ [name], IsFileName n := by
        intro n hn
        rcases List.mem_append.1 hn with hn | hn
        · exact named n hn
        · rw [List.mem_singleton.1 hn]
          exact FileTree.isFileName_of_mem_children hname
      rw [enter]
      split
      · split
        · exact adds_of_eq rfl
        · exact down name hname w named'
      · rename_i l bytes found
        split
        · exact adds_of_eq_concat rfl ⟨List.prefix_refl _, named', by simp, l, bytes, found⟩
        · exact adds_of_eq rfl
      · exact adds_of_eq rfl

/-- A walk tells of paths below its directory, each of them once. -/
theorem adds_errors_walkDirectory (s : Scope) (ancestors : List DirectoryKey) (rel : RelPath)
    (w : WalkState) :
    Adds (·.errors.map (·.1)) (rel <+: ·) w (walkDirectory s ancestors rel w) := by
  apply s.walkDirectory_rule (motive := fun _ rel w w' => Adds (·.errors.map (·.1)) (rel <+: ·) w w')
  case refused => exact fun _ => adds_of_eq_concat (List.map_append ..) (List.prefix_refl _)
  case cycle => exact fun _ _ => adds_of_eq_concat (List.map_append ..) (List.prefix_refl _)
  case visited => exact fun _ _ _ => adds_of_eq rfl
  case listed =>
    intro ancestors rel w loc here fresh unseen down
    have visit : Adds (·.errors.map (·.1)) (fun _ => False) w (w.visit (s.key rel)) :=
      adds_of_eq rfl
    have entries : Adds (·.errors.map (·.1))
        (fun f => ∃ name ∈ s.tree.children loc, rel ++ [name] <+: f) (w.visit (s.key rel))
        ((s.tree.children loc).foldl (s.enter (s.key rel :: ancestors) rel)
          (w.visit (s.key rel))) :=
      adds_foldl eq_of_common_start (s.tree.nodup_children loc) fun name mem w => ?_
    · refine (visit.trans entries fun _ h => h.elim).mono fun f hf => ?_
      obtain h | ⟨name, -, start⟩ := hf
      · exact h.elim
      · exact (List.prefix_append rel [name]).trans start
    · rw [enter]
      split
      · split
        · exact adds_of_eq rfl
        · exact down name mem w
      · split
        · exact adds_of_eq rfl
        · exact adds_of_eq rfl
      · exact adds_of_eq rfl

/-- No path is told of twice. -/
theorem nodup_errors_walk (s : Scope) : (s.walk.errors.map (·.1)).Nodup := by
  obtain ⟨new, grown, nodup, -⟩ := s.adds_errors_walkDirectory [] [] {}
  have told : s.walk.errors.map (·.1) = new := grown.trans (List.nil_append new)
  exact told ▸ nodup

/-- The files of a discovery are different, and each is found below the root. -/
theorem discover_files (s : Scope) :
    s.discover.files.Nodup ∧ ∀ rel ∈ s.discover.files, s.IsPick rel := by
  obtain ⟨new, files, nodup, picks⟩ := s.adds_files_walkDirectory [] [] {} (by simp)
  have walked : s.walk.files = new := files.trans (List.nil_append new)
  constructor
  · exact (List.mergeSort_perm _ _).nodup_iff.2 (walked ▸ nodup)
  · intro rel h
    rw [mem_files_discover, walked] at h
    exact (picks rel h).2

end Scope

theorem exists_of_isOk {α ε : Type} {result : Except ε α} (h : result.isOk = true) :
    ∃ a, result = .ok a := by
  cases result with
  | ok a => exact ⟨a, rfl⟩
  | error fault => cases h

theorem eq_ok_of_toOption {α ε : Type} {result : Except ε α} {a : α}
    (h : result.toOption = some a) : result = .ok a := by
  cases result with
  | ok b => rw [Option.some.inj h]
  | error fault => cases h

/-- A scope is one of the tree and the root that it was made for. -/
theorem tree_of_scope? {t : FileTree} {root : String} {scan : ScanSettings} {s : Scope}
    (h : scope? t root scan = .ok s) : s.tree = t ∧ s.root = root := by
  unfold scope? at h
  split at h
  · cases h
  · split at h
    · cases h
    · cases h
      exact ⟨rfl, rfl⟩

/-- The files of a discovery that succeeds are those of a walk. -/
theorem exists_scope_of_discover {t : FileTree} {root : String} {scan : ScanSettings}
    {found : Discovery} (h : discover t root scan = .ok found) :
    ∃ includes excludes, Glob.Selection.ofPatterns scan.includes = .ok includes ∧
      Glob.rulesOfSettings scan.excludes = .ok excludes ∧
      found = (scopeOf t root includes
        (if scan.disableGitignore then [] else ignoreRulesAt t root) excludes).discover := by
  cases includes : Glob.Selection.ofPatterns scan.includes with
  | error cause => simp [discover, scope?, includes, Except.map] at h
  | ok selection =>
    cases excludes : Glob.rulesOfSettings scan.excludes with
    | error cause => simp [discover, scope?, includes, excludes, Except.map] at h
    | ok rules =>
      refine ⟨selection, rules, rfl, rfl, ?_⟩
      simpa [discover, scope?, includes, excludes, Except.map] using h.symm

/-- Discovered files are there. -/
theorem exists_find_of_mem_discover {t : FileTree} {root : String} {scan : ScanSettings}
    {found : Discovery} (h : discover t root scan = .ok found) :
    ∀ path ∈ found.files.map (Path.below root), ∃ loc bytes, t.find path = .ok (.file loc bytes) := by
  obtain ⟨includes, excludes, -, -, rfl⟩ := exists_scope_of_discover h
  intro path mem
  obtain ⟨rel, listed, rfl⟩ := List.mem_map.1 mem
  exact ((Scope.discover_files _).2 rel listed).2.2

/-- A walk that picks its files in the order of their names is the discovery. -/
theorem discover_eq_of_walk {t : FileTree} {root : String} {scan : ScanSettings}
    {files : List RelPath} {errors : List (RelPath × WalkFault)}
    (walked : ((scope? t root scan).map Scope.walk).toOption.map (fun w => (w.files, w.errors)) =
      some (files, errors))
    (sorted : files.Pairwise (RelPath.precedes · ·)) :
    discover t root scan = .ok ⟨files, errors⟩ := by
  cases h : scope? t root scan with
  | error fault =>
    rw [h] at walked
    cases walked
  | ok scope =>
    rw [h] at walked
    obtain ⟨rfl, rfl⟩ := Prod.mk.inj (Option.some.inj walked)
    rw [discover, h, Except.map, Scope.discover, List.mergeSort_of_pairwise sorted]

end Expunge
