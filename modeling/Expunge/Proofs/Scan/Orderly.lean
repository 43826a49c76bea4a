import Expunge.Proofs.Scan.Listed
import Mathlib.Data.String.Basic

/-!
# The order that a walk keeps

Whatever the links of the tree are, a walk stops, a call gives back the stack on which it was made,
each directory is listed once, and what is noted is noted once: the files in the order of their
names, and a cycle for each entry that leads back to the way to it (`orderly`). One directory is
here what can be told from its real path. Where every real path can be asked for these are the
directories themselves; a directory whose real path is too long is listed under every path under
which the walk meets it, and no cycle is told of (`lists_again_behind_long_path`).
-/

namespace Expunge
set_option autoImplicit false
open Expunge.Path FileTree Relation

theorem RelPath.precedes_iff_le {a b : RelPath} : a.precedes b = true ↔ a ≤ b := by
  rw [precedes_iff, not_lt]

variable {s : Scope} {rel way : RelPath} {loc : Location} {same : RelPath → RelPath → Prop}

namespace Scope

theorem ListsAt.comes {m : Moment} (h : s.ListsAt m rel loc) : s.Comes rel :=
  (Lists.eq_nil_or_meets ⟨m, h⟩).imp_right And.left

/-- The walk comes to all that is on the way. -/
theorem Comes.of_prefix (h : s.Comes rel) (start : way <+: rel) : s.Comes way := by
  induction rel using List.reverseRecOn with
  | nil => exact .inl (List.prefix_nil.1 start)
  | append_singleton dir name ih =>
    obtain rfl | start := List.prefix_concat_iff.1 start
    · exact h
    obtain ⟨around, lists, -⟩ := meets_concat_iff.1 (h.resolve_left (by simp))
    exact ih (lists.eq_nil_or_meets.imp_right And.left) start

/-- A discovery tells of the cycles of its walk. -/
theorem cycle_mem_errors_discover_iff : (rel, .cycle) ∈ s.discover.errors ↔
    s.Meets rel ∧ s.ignores rel true = false ∧ s.LeadsBack rel := cycle_mem_errors_walk_iff

/-- The files of a discovery increase. -/
theorem pairwise_files_discover (s : Scope) : s.discover.files.Pairwise (· < ·) := by
  have sorted : s.discover.files.Pairwise (RelPath.precedes · ·) := by
    apply List.pairwise_mergeSort
    · intro a b c
      simp only [RelPath.precedes_iff_le]
      exact le_trans
    · intro a b
      simp only [Bool.or_eq_true, RelPath.precedes_iff_le]
      exact le_total a b
  refine (sorted.and s.discover_files.1).imp ?_
  rintro a b ⟨le, ne⟩
  exact lt_of_le_of_ne (RelPath.precedes_iff_le.1 le) ne

/-- The order that a walk keeps, where `same` tells which paths lead to one directory. -/
structure Orderly (s : Scope) (same : RelPath → RelPath → Prop) : Prop where
  /-- No run of the walk is endless. -/
  stops : Acc (fun m' m => s.Step m m') Moment.start
  /-- From every moment the walk comes to its end, with the result of the running definition. -/
  ends : ∀ m, s.Reaches m → s.Steps m ⟨none, [], [], s.walk⟩
  /-- A call returns on the stack on which it was made. -/
  returns : ∀ rel listings ancestors w, s.Reaches ⟨some rel, listings, ancestors, w⟩ →
    s.Steps ⟨some rel, listings, ancestors, w⟩
      ⟨none, listings, ancestors, walkDirectory s ancestors rel w⟩
  /-- The directories on the way are different, and they were all met. -/
  ancestors : ∀ m, s.Reaches m → m.ancestors.Nodup ∧ m.ancestors ⊆ m.state.visited
  /-- A directory is listed at one moment at most. -/
  once : ∀ m m' rel rel' loc loc', s.ListsAt m rel loc → s.ListsAt m' rel' loc' →
    same rel rel' → m = m'
  /-- The files increase, so none of them comes twice. -/
  sorted : s.discover.files.Pairwise (· < ·)
  /-- The cycles are the entries of listed directories that are not ignored and lead back. -/
  cycles : ∀ rel, (rel, .cycle) ∈ s.discover.errors ↔
    s.Meets rel ∧ s.ignores rel true = false ∧ ∃ way, way <+: rel ∧ way ≠ rel ∧ same way rel
  /-- No path is told of twice. -/
  single : (s.discover.errors.map (·.1)).Nodup
  /-- A call for a directory that was listed before and is not on the way notes nothing. -/
  quiet : ∀ rel listings ancestors w, s.Reaches ⟨some rel, listings, ancestors, w⟩ →
    (∀ way, way <+: rel → way ≠ rel → ¬ same way rel) →
    (∃ m₀ rel₀ loc₀, s.ListsAt m₀ rel₀ loc₀ ∧ same rel₀ rel ∧
      TransGen s.Step m₀ ⟨some rel, listings, ancestors, w⟩) →
      s.Step ⟨some rel, listings, ancestors, w⟩ ⟨none, listings, ancestors, w⟩

/-- A walk keeps the order for every relation that tells its directories apart as it does. -/
theorem orderly_of_agree
    (agree : ∀ {rel rel'}, s.Comes rel → s.Comes rel' → (same rel rel' ↔ s.Identifies rel rel')) :
    s.Orderly same where
  stops := Reaches.acc .refl
  ends _ reached := reached.steps_finish
  returns rel listings ancestors w _ := s.steps_walkDirectory ancestors rel w listings
  ancestors _ reached := ⟨reached.tidy.nodup, reached.tidy.listed⟩
  once _ _ _ _ _ _ lists lists' one := lists.unique lists' ((agree lists.comes lists'.comes).1 one)
  sorted := s.pairwise_files_discover
  cycles rel := by
    rw [cycle_mem_errors_discover_iff]
    refine and_congr_right fun meets => and_congr_right fun _ => exists_congr fun way => ?_
    refine and_congr_right fun start => and_congr_right fun _ => ?_
    exact (agree (Comes.of_prefix (.inr meets) start) (.inr meets)).symm
  single := s.nodup_errors_walk
  quiet := by
    rintro rel listings ancestors w reached away ⟨m₀, rel₀, loc₀, lists, one, later⟩
    have identified := (agree lists.comes reached.comes).1 one
    obtain ⟨loc, -, here⟩ := identified.1
    have met : s.key rel ∈ w.visited :=
      (reached.mem_visited_iff here).2 ⟨m₀, rel₀, loc₀, lists, identified, later⟩
    refine .seen here (fun around => ?_) met
    obtain ⟨way, start, proper, back⟩ := (reached.mem_ancestors_iff here).1 around
    have comes := reached.comes.of_prefix start
    exact away way start proper ((agree comes reached.comes).2 back)

/-- **The order of a walk**, whatever the links of the tree, the order of its listings and the
patterns are: for what the walk takes for one directory, and for the directories themselves if the
real paths of all that it comes to can be asked for. -/
theorem orderly (s : Scope) :
    s.Orderly s.Identifies ∧
      ((∀ rel loc, s.Comes rel → s.find rel = .ok (.directory loc) → s.HasRealPath rel) →
        s.Orderly s.SamePlace) := by
  refine ⟨orderly_of_agree fun _ _ => Iff.rfl, fun real => orderly_of_agree fun comes comes' => ?_⟩
  exact (identifies_iff_samePlace (fun loc here => real _ loc comes here)
    (fun loc here => real _ loc comes' here)).symm

end Scope

/-- A directory that holds a link to itself. -/
def loopTree : FileTree where
  entries := [(["r"], .directory), (["loop", "r"], .link "."), (["lib.rs", "r"], .file ⟨#[]⟩)]

/-- Where paths are short directories are what is listed once, and a link back is a cycle. -/
theorem Scope.orderly_loopTree :
    ∃ s, scope? loopTree "r" {} = .ok s ∧ loopTree.IsShort ∧ s.Orderly s.SamePlace ∧
      (s.walk.files, s.walk.errors) = ([["lib.rs"]], [(["loop"], .cycle)]) := by
  have short : loopTree.IsShort := by decide +kernel
  have walked : ((scope? loopTree "r" {}).map Scope.walk).toOption.map
      (fun w => (w.files, w.errors)) = some ([["lib.rs"]], [(["loop"], .cycle)]) := by
    decide +kernel
  cases made : scope? loopTree "r" {} with
  | error fault =>
    rw [made] at walked
    cases walked
  | ok s =>
    rw [made] at walked
    obtain ⟨tree, -⟩ := tree_of_scope? made
    exact ⟨s, rfl, short, (orderly s).2 fun _ _ _ here => hasRealPath_of_short (tree ▸ short) here,
      Option.some.inj walked⟩

/-! ### A directory with a long real path -/

namespace Scope

/-- A directory whose real path cannot be asked for is listed under every path under which the walk
meets it. -/
theorem Meets.lists_of_not_hasRealPath (meets : s.Meets rel) (kept : s.ignores rel true = false)
    (here : s.find rel = .ok (.directory loc)) (unreal : ¬ s.HasRealPath rel) :
    s.Lists rel loc := by
  obtain ⟨listings, ancestors, w, reached⟩ := meets.exists_call ⟨⟨loc, here⟩, kept⟩
  by_cases met : s.key rel ∈ w.visited
  · obtain ⟨m₀, rel₀, loc₀, lists, identified, -⟩ := (reached.mem_visited_iff here).1 met
    obtain rfl := identified.2.resolve_right fun real => unreal real.2
    exact ⟨m₀, identified.1.loc_eq lists.here here ▸ lists⟩
  · exact ⟨_, reached, rfl, here, fun around => met (reached.tidy.listed around), met⟩

/-- It is never taken for one on the way to it. -/
theorem not_leadsBack_of_not_hasRealPath (unreal : ¬ s.HasRealPath rel) : ¬ s.LeadsBack rel := by
  rintro ⟨way, -, proper, -, one | ⟨-, real⟩⟩
  · exact proper one
  · exact unreal real

end Scope

/-- A name as long as a name can be. -/
def longName : FileName := String.ofList (List.replicate 255 'n')

theorem size_longName : longName.utf8ByteSize = 255 := by decide +kernel

theorem ne_longName {name : FileName} (short : name.utf8ByteSize < 255) : name ≠ longName := by
  rintro rfl
  rw [size_longName] at short
  omega

theorem isFileName_longName : IsFileName longName where
  some := (ne_longName (by decide)).symm
  notDot := (ne_longName (by decide)).symm
  notUp := (ne_longName (by decide)).symm
  plain mem := by
    have letters : longName.toList = List.replicate 255 'n' := String.toList_ofList
    exact absurd (List.eq_of_mem_replicate (letters ▸ mem)) (by decide)

/-- The innermost of so many directories inside each other. -/
def nest (depth : Nat) : Location := List.replicate depth longName

theorem nest_succ (depth : Nat) : nest (depth + 1) = longName :: nest depth := rfl

theorem pathSize_nest (depth : Nat) : pathSize (nest depth) = depth * 256 := by
  induction depth with
  | zero => rfl
  | succ depth ih => rw [nest_succ, pathSize, ih, size_longName, Nat.add_one_mul]

/-- The names on the way down to the directory in the middle, and from there to the bottom. -/
def halfway : List FileName := List.replicate 8 longName

theorem isFileName_of_mem_halfway {name : FileName} (mem : name ∈ halfway) : IsFileName name :=
  List.eq_of_mem_replicate mem ▸ isFileName_longName

/-- The innermost of sixteen directories holds a link to itself. Its real path is too long to be
asked for, and a link leads there over a link to the directory in the middle. -/
def deepEntries : List (Location × Entry) :=
  [(["r"], .directory), (["d", "r"], .link ("/".intercalate (".." :: "x" :: halfway))),
    (["x"], .link ("/".intercalate halfway)), ("lib.rs" :: nest 16, .file ⟨#[]⟩),
    ("loop" :: nest 16, .link ".")] ++
  (List.range 16).map fun depth => (nest (depth + 1), .directory)

theorem mem_deepEntries {depth : Nat} (h : depth < 16) :
    (nest (depth + 1), .directory) ∈ deepEntries :=
  List.mem_append_right _ (List.mem_map.2 ⟨depth, List.mem_range.2 h, rfl⟩)

theorem nodup_deepEntries : (deepEntries.map (·.1)).Nodup := by
  rw [deepEntries, List.map_append, List.map_map, List.nodup_append']
  refine ⟨by simp, List.nodup_range.map fun a b same => ?_, ?_⟩
  · simpa [nest] using congrArg List.length same
  · intro loc outer inner
    obtain ⟨depth, -, rfl⟩ := List.mem_map.1 inner
    have short : ∀ l ∈ (deepEntries.take 5).map (·.1), ∀ name ∈ l.head?,
        name.utf8ByteSize < 255 := by decide
    exact ne_longName (short _ outer longName rfl) rfl

theorem hasDirectory_nest {depth : Nat} (h : depth ≤ 16) : HasDirectory deepEntries (nest depth) := by
  cases depth with
  | zero => exact .inl rfl
  | succ depth => exact .inr (mem_deepEntries h)

theorem placed_deepEntries : ∀ e ∈ deepEntries, IsPlaced deepEntries e.1 := by
  intro e mem
  obtain mem | mem := List.mem_append.1 mem
  · simp only [List.mem_cons, List.not_mem_nil, or_false] at mem
    obtain rfl | rfl | rfl | rfl | rfl := mem
    · exact ⟨by decide, .inl rfl⟩
    · exact ⟨by decide, .inr List.mem_cons_self⟩
    · exact ⟨by decide, .inl rfl⟩
    · exact ⟨by decide, hasDirectory_nest (Nat.le_refl _)⟩
    · exact ⟨by decide, hasDirectory_nest (Nat.le_refl _)⟩
  · obtain ⟨depth, below, rfl⟩ := List.mem_map.1 mem
    exact ⟨isFileName_longName, hasDirectory_nest (Nat.le_of_lt (List.mem_range.1 below))⟩

/-- The tree of these entries. -/
def deepTree : FileTree where
  entries := deepEntries
  nodup := nodup_deepEntries
  placed := placed_deepEntries

namespace deepTree

variable {links : Nat} {rest : List FileName} {loc : Location}

theorem get?_nest {depth : Nat} (h : depth < 16) :
    deepTree.get? (nest (depth + 1)) = some .directory :=
  get?_eq_some_iff.2 (mem_deepEntries h)

/-- The way down. -/
theorem leads_nest (count depth : Nat) (inside : depth + count ≤ 16)
    (next : deepTree.Leads links (nest (depth + count)) rest loc) :
    deepTree.Leads links (nest depth) (List.replicate count longName ++ rest) loc := by
  induction count generalizing depth with
  | zero => exact next
  | succ count ih =>
    have onward := ih (depth + 1) (by omega) (by rwa [Nat.add_right_comm])
    exact .down isFileName_longName.toIsName (Nat.le_of_eq size_longName) (get?_nest (by omega)) onward

/-- The first of the directories on the way down has a real path exactly if it is not the
innermost. -/
theorem traces_longName {depth : Nat} (inside : depth < 16) :
    deepTree.traces links (nest depth) (longName :: rest) =
      if depth = 15 then false else deepTree.traces links (nest (depth + 1)) rest := by
  have here : deepTree.get? (longName :: nest depth) = some .directory := get?_nest inside
  rw [traces_directory isFileName_longName.toIsName here, ← nest_succ, pathSize_nest, maxPath]
  exact if_congr (by omega) rfl rfl

/-- The real path of the directory at the bottom cannot be asked for. -/
theorem traces_nest (count depth : Nat) (bottom : depth + (count + 1) = 16) :
    deepTree.traces links (nest depth) (List.replicate (count + 1) longName ++ rest) = false := by
  rw [List.replicate_succ, List.cons_append, traces_longName (by omega)]
  induction count generalizing depth with
  | zero => exact if_pos (by omega)
  | succ count ih =>
    rw [if_neg (by omega), List.replicate_succ, List.cons_append, traces_longName (by omega)]
    exact ih (depth + 1) (by omega)

/-- The entries but for the directories on the way down. -/
theorem get?_of_mem {name : FileName} {dir : Location} {e : Entry}
    (mem : (name :: dir, e) ∈ deepEntries.take 5) : deepTree.get? (name :: dir) = some e :=
  get?_eq_some_iff.2 (List.mem_of_mem_take mem)

theorem get?_root : deepTree.get? ["r"] = some .directory := get?_of_mem (by simp [deepEntries])

theorem get?_link :
    deepTree.get? ["d", "r"] = some (.link ("/".intercalate (".." :: "x" :: halfway))) :=
  get?_of_mem (by simp [deepEntries])

theorem get?_middle : deepTree.get? ["x"] = some (.link ("/".intercalate halfway)) :=
  get?_of_mem (by simp [deepEntries])

theorem get?_loop : deepTree.get? ("loop" :: nest 16) = some (.link ".") :=
  get?_of_mem (by simp [deepEntries])

/-- The targets of the links, as they are followed. -/
theorem target_middle :
    isAbsolute ("/".intercalate halfway) = false ∧ segments ("/".intercalate halfway) = halfway :=
  ⟨isAbsolute_intercalate isFileName_longName.some isFileName_longName.plain,
    segments_intercalate (by decide) fun _ mem => (isFileName_of_mem_halfway mem).plain⟩

theorem target_link :
    isAbsolute ("/".intercalate (".." :: "x" :: halfway)) = false ∧
      segments ("/".intercalate (".." :: "x" :: halfway)) = ".." :: "x" :: halfway := by
  refine ⟨isAbsolute_intercalate (by decide) (by decide),
    segments_intercalate (by decide) fun name mem => ?_⟩
  simp only [List.mem_cons] at mem
  obtain rfl | rfl | mem := mem
  · decide
  · decide
  · exact (isFileName_of_mem_halfway mem).plain

/-- The path to the link leads to the bottom. -/
theorem leads_link (next : deepTree.Leads 38 (nest 16) rest loc) :
    deepTree.Leads 40 [] ("r" :: "d" :: rest) loc := by
  have bottom : deepTree.Leads 38 [] (halfway ++ (halfway ++ rest)) loc :=
    leads_nest 8 0 (by decide) (leads_nest 8 8 (by decide) next)
  refine .down (by decide) (by decide) get?_root (.link (by decide) (by decide) get?_link ?_)
  rw [target_link.1, target_link.2]
  refine .up (.link (by decide) (by decide) get?_middle ?_)
  rw [target_middle.1, target_middle.2]
  exact bottom

/-- The real path of the link cannot be asked for. -/
theorem traces_link (rest : List FileName) :
    deepTree.traces 40 [] ("r" :: "d" :: rest) = false := by
  have bottom : deepTree.traces 38 [] (halfway ++ (halfway ++ rest)) = false := by
    rw [← List.append_assoc]
    exact traces_nest 15 0 rfl
  calc deepTree.traces 40 [] ("r" :: "d" :: rest)
    _ = deepTree.traces 40 ["r"] ("d" :: rest) := by
        rw [traces_directory (by decide) get?_root, if_neg (by decide)]
    _ = deepTree.traces 39 ["r"] (".." :: "x" :: (halfway ++ rest)) := by
        rw [FileTree.traces_link (by decide) get?_link, if_neg (by decide), target_link.1,
          target_link.2]
        rfl
    _ = deepTree.traces 39 [] ("x" :: (halfway ++ rest)) := traces_up
    _ = deepTree.traces 38 [] (halfway ++ (halfway ++ rest)) := by
        rw [FileTree.traces_link (by decide) get?_middle, if_neg (by decide), target_middle.1,
          target_middle.2]
        rfl
    _ = false := bottom

/-- What is behind the link is found at the bottom, and its real path cannot be asked for. -/
theorem find_link {path : String} (asked : checkPath path = .ok ())
    (relative : isAbsolute path = false) (parts : segments path = "r" :: "d" :: rest)
    (next : deepTree.Leads 38 (nest 16) rest (nest 16)) :
    deepTree.find path = .ok (.directory (nest 16)) ∧
      ¬ ∃ loc, deepTree.canonicalize path = .ok loc := by
  have start : deepTree.start path = [] := by
    rw [FileTree.start, relative]
    rfl
  have here : deepTree.find path = .ok (.directory (nest 16)) := by
    rw [find_eq_directory_iff, resolve_eq_taken_iff, start, parts]
    exact ⟨⟨asked, leads_link next⟩, get?_nest (by decide)⟩
  refine ⟨here, ?_⟩
  rintro ⟨loc, real⟩
  obtain ⟨-, -, -, traced⟩ := canonicalize_eq_ok_iff.1 real
  cases (traces_link rest).symm.trans (start ▸ parts ▸ traced)

theorem find_root : deepTree.find "r" = .ok (.directory ["r"]) := by
  have route : deepTree.Leads maxLinks (deepTree.start "r") (segments "r") ["r"] := by
    rw [show deepTree.start "r" = [] by decide, show segments "r" = ["r"] by decide]
    exact .down (by decide) (by decide) get?_root .arrived
  exact find_eq_directory_iff.2 ⟨resolve_eq_taken_iff.2 ⟨by decide, route⟩, get?_root⟩

theorem find_bottom : deepTree.find (below "r" ["d"]) = .ok (.directory (nest 16)) ∧
    ¬ ∃ loc, deepTree.canonicalize (below "r" ["d"]) = .ok loc :=
  find_link (by decide) (by decide) (by decide) .arrived

theorem find_bottom_again :
    deepTree.find (below "r" ["d", "loop"]) = .ok (.directory (nest 16)) ∧
      ¬ ∃ loc, deepTree.canonicalize (below "r" ["d", "loop"]) = .ok loc :=
  find_link (by decide) (by decide) (by decide)
    (.link (by decide) (by decide) get?_loop (.stay (.inr rfl) .arrived))

end deepTree

/-- **The directory at the bottom is listed again**, under the link to itself in it, and no cycle is
told of. -/
theorem Scope.lists_again_behind_long_path :
    ∃ s, scope? deepTree "r" { disableGitignore := true } = .ok s ∧
      (∃ loc, s.Lists ["d"] loc ∧ s.Lists ["d", "loop"] loc) ∧ s.SamePlace ["d"] ["d", "loop"] ∧
      (["d", "loop"], .cycle) ∉ s.discover.errors ∧ ¬ s.Orderly s.SamePlace := by
  obtain ⟨includes, compiled⟩ := exists_of_isOk (show
    (Glob.Selection.ofPatterns ({} : ScanSettings).includes).isOk = true by decide +kernel)
  let s := scopeOf deepTree "r" includes [] []
  have made : scope? deepTree "r" { disableGitignore := true } = .ok s := by
    rw [scope?, compiled]
    rfl
  have top : s.find [] = .ok (.directory ["r"]) := deepTree.find_root
  obtain ⟨link, unreal⟩ : s.find ["d"] = .ok (.directory (nest 16)) ∧ ¬ s.HasRealPath ["d"] :=
    deepTree.find_bottom
  obtain ⟨again, unreal'⟩ :
      s.find ["d", "loop"] = .ok (.directory (nest 16)) ∧ ¬ s.HasRealPath ["d", "loop"] :=
    deepTree.find_bottom_again
  have kept : ∀ rel, s.ignores rel true = false := fun _ => rfl
  have entry : "d" ∈ s.tree.children ["r"] := by
    rw [mem_children_iff]
    exact ne_of_eq_of_ne deepTree.get?_link (Option.some_ne_none _)
  have entry' : "loop" ∈ s.tree.children (nest 16) := by
    rw [mem_children_iff]
    exact ne_of_eq_of_ne deepTree.get?_loop (Option.some_ne_none _)
  clear_value s
  have meets : s.Meets ["d"] := ⟨[], "d", _, rfl, lists_root top, entry⟩
  have lists : s.Lists ["d"] (nest 16) := meets.lists_of_not_hasRealPath (kept _) link unreal
  have meets' : s.Meets ["d", "loop"] := ⟨["d"], "loop", _, rfl, lists, entry'⟩
  have silent : (["d", "loop"], .cycle) ∉ s.discover.errors := fun told =>
    not_leadsBack_of_not_hasRealPath unreal' (cycle_mem_errors_discover_iff.1 told).2.2
  have same : s.SamePlace ["d"] ["d", "loop"] := ⟨_, link, again⟩
  refine ⟨s, made, ⟨_, lists, meets'.lists_of_not_hasRealPath (kept _) again unreal'⟩, same,
    silent, fun orderly => ?_⟩
  exact silent ((orderly.cycles _).2 ⟨meets', kept _, ["d"], by simp, by simp, same⟩)

end Expunge
