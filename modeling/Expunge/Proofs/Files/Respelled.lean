import Expunge.Proofs.Files.Canonical

/-!
# Other spellings of a directory

Separators and dots behind a directory, and dots in front of it, change its text and not what is
below it. Following passes over them as long as something comes after them (`follow_skip_dot`), so
the same is found, written and taken away below every spelling (`sameAt_respelled`), with the same
real path (`canonicalize_respelled`), and every spelling leads to the directory
(`find_eq_directory_iff_respelled`). Only the length of the text tells them apart.
-/

namespace Expunge
set_option autoImplicit false
open Expunge.Path

namespace Path

/-- The second path is the first one with separators and dots behind it, or with dots in front of it
if it does not start at the top. -/
inductive Respells (p : String) : String → Prop
  | same : Respells p p
  | slash {q : String} (h : Respells p q) : Respells p (q ++ "/")
  | dot {q : String} (h : Respells p q) : Respells p (q ++ "/.")
  | here {q : String} (relative : isAbsolute q = false) (h : Respells p q) : Respells p ("./" ++ q)

/-- The path is more than separators and dots. -/
def HasStep (path : String) : Prop := ∃ part ∈ segments path, part ≠ "" ∧ part ≠ "."

instance (path : String) : Decidable (HasStep path) :=
  inferInstanceAs (Decidable (∃ part ∈ segments path, part ≠ "" ∧ part ≠ "."))

/-- What every path below a directory starts with: the text of the directory, closed by a
separator. -/
def stem (directory : String) : String :=
  if directory.toList.getLast? = some '/' then directory else directory ++ "/"

variable {directory name p q : String} {rel : RelPath}

/-! ### The text below a directory -/

theorem join_eq_stem_append (some : directory ≠ "") :
    join directory name = stem directory ++ name := by
  have nonempty : directory.isEmpty = false := by simpa using some
  simp only [join, stem, nonempty, Bool.false_eq_true, if_false]
  split <;> rfl

/-- A text that ends in a name is closed by one separator more. -/
theorem stem_append_name (front : String) (named : IsFileName name) :
    stem (front ++ name) = front ++ name ++ "/" := by
  have some : name.toList ≠ [] := fun none => named.some (String.toList_eq_nil_iff.1 none)
  have last : (front ++ name).toList.getLast? ≠ Option.some '/' := by
    rw [String.toList_append, List.getLast?_append_of_ne_nil _ some]
    exact fun slash => named.plain (List.mem_of_getLast? slash)
  rw [stem, if_neg last]

/-- A path below a directory is its stem and the path below the first name. -/
theorem below_eq_stem_append (some : directory ≠ "") (named : ∀ n ∈ name :: rel, IsFileName n) :
    below directory (name :: rel) = stem directory ++ below name rel := by
  induction rel generalizing directory name with
  | nil => exact join_eq_stem_append some
  | cons next rel ih =>
    have first := named name List.mem_cons_self
    have rest : ∀ n ∈ next :: rel, IsFileName n := fun n h => named n (List.mem_cons_of_mem _ h)
    have alone : stem name = name ++ "/" := by simpa using stem_append_name "" first
    show below (join directory name) (next :: rel) = _
    rw [ih (join_ne_empty some) rest, ih first.some rest, join_eq_stem_append some,
      stem_append_name _ first, alone]
    simp only [String.append_assoc]

/-! ### The text of another spelling -/

theorem segments_append_slash (path : String) : segments (path ++ "/") = segments path ++ [""] :=
  segments_of_toList_eq path.toList [] (by simp [String.toList_append])

theorem segments_append_slash_dot (path : String) :
    segments (path ++ "/.") = segments path ++ ["."] :=
  segments_of_toList_eq path.toList ['.'] (by simp [String.toList_append])

theorem segments_here (path : String) : segments ("./" ++ path) = "." :: segments path :=
  segments_of_toList_eq ['.'] path.toList (by simp [String.toList_append])

theorem nul_mem_stem_iff : '\x00' ∈ (stem directory).toList ↔ '\x00' ∈ directory.toList := by
  unfold stem
  split <;> simp [String.toList_append]

/-- A stem is as long as its directory, or a separator longer. -/
theorem size_stem_bounds (directory : String) :
    directory.utf8ByteSize ≤ (stem directory).utf8ByteSize ∧
      (stem directory).utf8ByteSize ≤ directory.utf8ByteSize + 1 := by
  have one : "/".utf8ByteSize = 1 := rfl
  unfold stem
  split
  · omega
  · rw [String.utf8ByteSize_append]
    omega

theorem HasStep.ne_empty (h : HasStep p) : p ≠ "" := by
  rintro rfl
  revert h
  decide

namespace Respells

theorem hasStep (h : Respells p q) (step : HasStep p) : HasStep q := by
  obtain ⟨part, mem, more⟩ := step
  suffices part ∈ segments q from ⟨part, this, more⟩
  induction h with
  | same => exact mem
  | slash _ ih => exact segments_append_slash _ ▸ List.mem_append_left _ ih
  | dot _ ih => exact segments_append_slash_dot _ ▸ List.mem_append_left _ ih
  | here _ _ ih => exact segments_here _ ▸ List.mem_cons_of_mem _ ih

theorem ne_empty (h : Respells p q) (step : HasStep p) : q ≠ "" := (h.hasStep step).ne_empty

theorem isAbsolute_eq (h : Respells p q) (step : HasStep p) : isAbsolute q = isAbsolute p := by
  induction h with
  | same => rfl
  | slash h ih => exact (isAbsolute_append (h.ne_empty step) _).trans ih
  | dot h ih => exact (isAbsolute_append (h.ne_empty step) _).trans ih
  | here relative _ ih =>
    exact (isAbsolute_append (by decide) _).trans (relative.symm.trans ih)

/-- No spelling adds an end mark. -/
theorem nul_mem_iff (h : Respells p q) : '\x00' ∈ q.toList ↔ '\x00' ∈ p.toList := by
  induction h with
  | same => rfl
  | slash _ ih | dot _ ih | here _ _ ih => simpa [String.toList_append] using ih

/-- Another spelling is longer. -/
theorem eq_or_size_lt (h : Respells p q) : q = p ∨ p.utf8ByteSize < q.utf8ByteSize := by
  have added : 0 < "/".utf8ByteSize ∧ 0 < "/.".utf8ByteSize ∧ 0 < "./".utf8ByteSize := by decide
  induction h with
  | same => exact .inl rfl
  | slash _ ih | dot _ ih | here _ _ ih =>
    right
    rw [String.utf8ByteSize_append]
    rcases ih with rfl | shorter <;> omega

theorem size_stem_le (h : Respells p q) : (stem p).utf8ByteSize ≤ (stem q).utf8ByteSize := by
  obtain rfl | shorter := h.eq_or_size_lt
  · exact Nat.le_refl _
  · exact Nat.le_trans (size_stem_bounds p).2 (Nat.le_trans shorter (size_stem_bounds q).1)

section
variable (h : Respells p q) (step : HasStep p) (named : ∀ n ∈ rel, IsFileName n)
include h step named

/-- What is below another spelling is not shorter. -/
theorem size_below_le : (Path.below p rel).utf8ByteSize ≤ (Path.below q rel).utf8ByteSize := by
  cases rel with
  | nil =>
    obtain rfl | shorter := h.eq_or_size_lt
    · exact Nat.le_refl _
    · exact Nat.le_of_lt shorter
  | cons name rel =>
    rw [below_eq_stem_append step.ne_empty named, below_eq_stem_append (h.ne_empty step) named,
      String.utf8ByteSize_append, String.utf8ByteSize_append]
    exact Nat.add_le_add_right h.size_stem_le _

theorem nul_mem_below_iff :
    '\x00' ∈ (Path.below q rel).toList ↔ '\x00' ∈ (Path.below p rel).toList := by
  cases rel with
  | nil => exact h.nul_mem_iff
  | cons name rel =>
    rw [below_eq_stem_append step.ne_empty named, below_eq_stem_append (h.ne_empty step) named,
      String.toList_append, String.toList_append, List.mem_append, List.mem_append,
      nul_mem_stem_iff, nul_mem_stem_iff, h.nul_mem_iff]

end

end Respells

/-- Any number of separators behind a directory spell it. -/
theorem respells_slashes (p : String) (n : Nat) :
    Respells p (p ++ String.ofList (List.replicate n '/')) ∧
      n ≤ (p ++ String.ofList (List.replicate n '/')).utf8ByteSize := by
  induction n with
  | zero => exact ⟨by simpa using Respells.same, Nat.zero_le _⟩
  | succ n ih =>
    have one : "/".utf8ByteSize = 1 := rfl
    rw [List.replicate_succ', String.ofList_append, ← String.append_assoc]
    refine ⟨.slash ih.1, ?_⟩
    rw [String.utf8ByteSize_append]
    exact Nat.add_le_add ih.2 (Nat.le_of_eq one.symm)

end Path

namespace FileTree

variable {t : FileTree} {creating : Bool} {links : Nat} {dir loc : Location} {name : FileName}
  {names behind : List FileName} {onLink : Location → List FileName → Except IoError Place}
  {p q : String} {rel : RelPath}

/-! ### Following passes over a dot -/

/-- A name with another part behind it has to lead to a directory. -/
theorem followNames_of_more (named : IsName name) (more : ∃ b ∈ behind, b ≠ "") :
    t.followNames creating onLink dir (name :: behind) =
      if maxName < name.utf8ByteSize then .error .nameTooLong
      else
        match t.get? (name :: dir) with
        | none => .error .notFound
        | some .directory => t.followNames creating onLink (name :: dir) behind
        | some (.file _) => .error .notADirectory
        | some (.link target) =>
          onLink (if isAbsolute target then [] else dir) (segments target ++ behind) := by
  obtain ⟨b, mem, some⟩ := more
  have goesOn : behind ≠ [] := List.ne_nil_of_mem mem
  have goesOn' : behind.all (· = "") = false := List.all_eq_false.2 ⟨b, mem, by simpa using some⟩
  have ended : ¬ (creating = true ∧ behind ≠ [] ∧ behind.all (· = "") = true) := by simp [goesOn']
  by_cases short : name.utf8ByteSize ≤ maxName
  · rw [followNames_name named short ended, if_neg (Nat.not_lt.2 short)]
    cases t.get? (name :: dir) with
    | none => exact if_neg (by simp [goesOn'])
    | some e =>
      cases e with
      | file _ => exact if_neg goesOn
      | directory | link _ => rfl
  · have notDot : ¬ (name = "" ∨ name = ".") := fun h => h.elim named.some named.notDot
    have long : maxName < name.utf8ByteSize := Nat.lt_of_not_le short
    rw [followNames, if_neg notDot, if_neg named.notUp, if_neg ended, if_pos long, if_pos long]

section
variable (dot : name = "" ∨ name = ".") (more : ∃ b ∈ behind, b ≠ "")
include dot more

theorem followNames_skip_dot
    (afterLink : ∀ dir names, onLink dir (names ++ name :: behind) = onLink dir (names ++ behind)) :
    t.followNames creating onLink dir (names ++ name :: behind) =
      t.followNames creating onLink dir (names ++ behind) := by
  induction names generalizing dir with
  | nil => exact followNames_dot dot
  | cons first names ih =>
    rw [List.cons_append, List.cons_append]
    rcases name_cases first with dot' | rfl | named
    · rw [followNames_dot dot', followNames_dot dot', ih]
    · rw [followNames_up, followNames_up, ih]
    · obtain ⟨b, mem, some⟩ := more
      rw [followNames_of_more named ⟨b, by simp [mem], some⟩,
        followNames_of_more named ⟨b, by simp [mem], some⟩]
      split
      · rfl
      · split
        · rfl
        · exact ih
        · rfl
        · rw [← List.append_assoc, afterLink, List.append_assoc]

/-- **Following passes over an empty part or a dot** that is not at the end. -/
theorem follow_skip_dot : t.follow creating links dir (names ++ name :: behind) =
    t.follow creating links dir (names ++ behind) := by
  induction links generalizing dir names with
  | zero => exact followNames_skip_dot dot more fun _ _ => rfl
  | succ links ih => exact followNames_skip_dot dot more fun _ _ => ih

end

/-- Following goes the same way over every spelling of a directory. -/
theorem follow_respelled (spelled : Respells p q) (more : ∃ b ∈ behind, b ≠ "") :
    t.follow creating links dir (segments q ++ behind) =
      t.follow creating links dir (segments p ++ behind) := by
  induction spelled with
  | same => rfl
  | slash _ ih =>
    rw [segments_append_slash, List.append_assoc, List.singleton_append,
      follow_skip_dot (.inl rfl) more, ih]
  | dot _ ih =>
    rw [segments_append_slash_dot, List.append_assoc, List.singleton_append,
      follow_skip_dot (.inr rfl) more, ih]
  | here _ _ ih =>
    rw [segments_here, List.cons_append, ← ih]
    obtain ⟨b, mem, some⟩ := more
    show t.follow creating links dir ([] ++ "." :: _) = t.follow creating links dir ([] ++ _)
    exact follow_skip_dot (.inr rfl) ⟨b, List.mem_append_right _ mem, some⟩

/-! ### Real paths -/

theorem tracesNames_skip_dot {onLink : Location → List FileName → Bool}
    (dot : name = "" ∨ name = ".")
    (afterLink : ∀ dir names, onLink dir (names ++ name :: behind) = onLink dir (names ++ behind)) :
    t.tracesNames onLink dir (names ++ name :: behind) =
      t.tracesNames onLink dir (names ++ behind) := by
  induction names generalizing dir with
  | nil => exact tracesNames_dot dot
  | cons first names ih =>
    rw [List.cons_append, List.cons_append]
    rcases name_cases first with dot' | rfl | named
    · rw [tracesNames_dot dot', tracesNames_dot dot', ih]
    · rw [tracesNames_up, tracesNames_up, ih]
    · rw [tracesNames_name named, tracesNames_name named]
      split
      · rfl
      · split
        · exact ih
        · rw [← List.append_assoc, afterLink, List.append_assoc]
        · rfl
        · rfl

/-- Empty parts and dots have no real path of their own. -/
theorem traces_skip_dot (dot : name = "" ∨ name = ".") :
    t.traces links dir (names ++ name :: behind) = t.traces links dir (names ++ behind) := by
  induction links generalizing dir names with
  | zero => exact tracesNames_skip_dot dot fun _ _ => rfl
  | succ links ih => exact tracesNames_skip_dot dot fun _ _ => ih

theorem traces_respelled (spelled : Respells p q) :
    t.traces links dir (segments q ++ behind) = t.traces links dir (segments p ++ behind) := by
  induction spelled with
  | same => rfl
  | slash _ ih =>
    rw [segments_append_slash, List.append_assoc, List.singleton_append, traces_skip_dot (.inl rfl),
      ih]
  | dot _ ih =>
    rw [segments_append_slash_dot, List.append_assoc, List.singleton_append,
      traces_skip_dot (.inr rfl), ih]
  | here _ _ ih =>
    rw [segments_here, List.cons_append, ← ih]
    show t.traces links dir ([] ++ "." :: _) = t.traces links dir ([] ++ _)
    exact traces_skip_dot (.inr rfl)

theorem traces_below {directory : String} (some : directory ≠ "")
    (named : ∀ n ∈ rel, IsFileName n) : t.traces links dir (segments (below directory rel)) =
      t.traces links dir (segments directory ++ rel) := by
  cases rel with
  | nil => rw [below_nil, List.append_nil]
  | cons name rel =>
    obtain ⟨names, parts, alone | alone⟩ := exists_segments_below some named
    · rw [parts, alone]
    · rw [parts, alone, List.append_assoc, List.singleton_append, traces_skip_dot (.inl rfl)]

/-! ### What is below a directory -/

/-- The parts of a path below a directory are followed like those of the directory and the names
behind them, and so are other parts in the place of the names. -/
theorem exists_segments_below_follow {directory : String} (some : directory ≠ "")
    (named : ∀ n ∈ rel, IsFileName n) (proper : rel ≠ []) :
    ∃ names, segments (below directory rel) = names ++ rel ∧
      ∀ creating links dir behind, (∃ b ∈ behind, b ≠ "") →
        t.follow creating links dir (names ++ behind) =
          t.follow creating links dir (segments directory ++ behind) := by
  obtain ⟨name, rest, rfl⟩ := List.exists_cons_of_ne_nil proper
  obtain ⟨names, parts, alone | alone⟩ := exists_segments_below some named
  · exact ⟨names, parts, fun _ _ _ _ _ => by rw [alone]⟩
  · refine ⟨names, parts, fun _ _ _ _ more => ?_⟩
    rw [alone, List.append_assoc, List.singleton_append, follow_skip_dot (.inl rfl) more]

/-- Whatever is done at two paths, they lead to the same. -/
structure SameAt (t : FileTree) (path path' : String) : Prop where
  find : t.find path' = t.find path
  writePlace : t.writePlace path' = t.writePlace path
  namedPlace : t.namedPlace path' = t.namedPlace path

section
variable (spelled : Respells p q) (step : HasStep p)
include spelled step

theorem checkPath_respelled (named : ∀ n ∈ rel, IsFileName n)
    (short : (below q rel).utf8ByteSize < maxPath) :
    checkPath (below q rel) = checkPath (below p rel) := by
  have some : ∀ {root : String}, root ≠ "" → (below root rel).isEmpty = false := by
    intro root some
    simpa using below_ne_empty some rel
  have short' : (below p rel).utf8ByteSize < maxPath :=
    Nat.lt_of_le_of_lt (spelled.size_below_le step named) short
  have nul : (below q rel).toList.contains '\x00' = (below p rel).toList.contains '\x00' := by
    rw [Bool.eq_iff_iff, List.contains_iff_mem, List.contains_iff_mem,
      spelled.nul_mem_below_iff step named]
  simp only [checkPath, nul, some step.ne_empty, some (spelled.ne_empty step),
    if_neg (Nat.not_le.2 short), if_neg (Nat.not_le.2 short')]

theorem start_respelled : t.start (below q rel) = t.start (below p rel) := by
  rw [start_below t rel step.ne_empty, start_below t rel (spelled.ne_empty step), start, start,
    spelled.isAbsolute_eq step]

/-- **Below every spelling the same is found, written and taken away.** -/
theorem sameAt_respelled (named : ∀ n ∈ rel, IsFileName n) (proper : rel ≠ [])
    (short : (below q rel).utf8ByteSize < maxPath) : t.SameAt (below p rel) (below q rel) := by
  have asked := checkPath_respelled spelled step named short
  have start : t.start (below q rel) = t.start (below p rel) := start_respelled spelled step
  obtain ⟨front, parts, skip⟩ := exists_segments_below_follow (t := t) step.ne_empty named proper
  obtain ⟨front', parts', skip'⟩ :=
    exists_segments_below_follow (t := t) (spelled.ne_empty step) named proper
  have follow : ∀ creating links dir behind, (∃ b ∈ behind, b ≠ "") →
      t.follow creating links dir (front' ++ behind) =
        t.follow creating links dir (front ++ behind) := by
    intro creating links dir behind more
    rw [skip _ _ _ _ more, skip' _ _ _ _ more, follow_respelled spelled more]
  obtain ⟨above, last, rfl⟩ : ∃ above last, rel = above ++ [last] :=
    ⟨_, _, (List.dropLast_concat_getLast proper).symm⟩
  have some : last ≠ "" := (named last (by simp)).some
  have resolve : ∀ creating, t.resolve creating (below q (above ++ [last])) =
      t.resolve creating (below p (above ++ [last])) := by
    intro creating
    rw [FileTree.resolve, FileTree.resolve, asked, start, parts, parts',
      follow _ _ _ _ ⟨last, by simp, some⟩]
  refine ⟨?find, ?writePlace, ?namedPlace⟩
  case find => rw [find, find, resolve]
  case writePlace => rw [writePlace, writePlace, resolve]
  case namedPlace =>
    rw [← List.append_assoc] at parts parts'
    rw [namedPlace, namedPlace, asked, start, splitLast_eq some parts, splitLast_eq some parts']
    dsimp only
    rw [List.append_assoc, List.append_assoc, follow _ _ _ _ ⟨".", by simp, by decide⟩]

/-- What is found below one spelling is found below the other, if its path is not too long. -/
theorem find_eq_ok_iff_respelled {found : Found} (named : ∀ n ∈ rel, IsFileName n)
    (proper : rel ≠ [])
    (fits : (t.find (below p rel)).isOk = true → (below q rel).utf8ByteSize < maxPath) :
    t.find (below q rel) = .ok found ↔ t.find (below p rel) = .ok found := by
  constructor
  · intro h
    have short := (checkPath_of_find h).2
    exact (sameAt_respelled spelled step named proper short).find.symm.trans h
  · intro h
    have short := fits (by rw [h]; rfl)
    exact (sameAt_respelled spelled step named proper short).find.trans h

/-- What is found below every spelling has the same real path. -/
theorem canonicalize_respelled {found : Found} (named : ∀ n ∈ rel, IsFileName n)
    (here : t.find (below p rel) = .ok found) (here' : t.find (below q rel) = .ok found) :
    t.canonicalize (below q rel) = t.canonicalize (below p rel) := by
  rw [canonicalize_of_find here, canonicalize_of_find here', start_respelled spelled step,
    traces_below step.ne_empty named, traces_below (spelled.ne_empty step) named,
    traces_respelled spelled]

end

/-! ### The directory itself -/

theorem Leads.append_dot (h : t.Leads links dir names loc)
    (here : t.get? loc = some .directory) : t.Leads links dir (names ++ ["."]) loc := by
  induction h with
  | arrived => exact .stay (.inr rfl) .arrived
  | stay dot _ ih => exact .stay dot (ih here)
  | up _ ih => exact .up (ih here)
  | down named short here' _ ih => exact .down named short here' (ih here)
  | file _ _ here' => cases here'.symm.trans here
  | link named short here' _ ih =>
    exact .link named short here' ((List.append_assoc ..).symm ▸ ih here)

theorem Leads.of_append_dot (h : t.Leads links dir (names ++ ["."]) loc) :
    t.Leads links dir names loc := by
  generalize e : names ++ ["."] = all at h
  induction h generalizing names with
  | arrived => simp at e
  | stay dot next ih =>
    rcases names with _ | ⟨first, names⟩
    · obtain ⟨-, rfl⟩ := List.cons.inj e
      exact next
    · obtain ⟨rfl, rfl⟩ := List.cons.inj e
      exact .stay dot (ih rfl)
  | up next ih =>
    rcases names with _ | ⟨first, names⟩
    · exact absurd (List.cons.inj e).1 (by decide)
    · obtain ⟨rfl, rfl⟩ := List.cons.inj e
      exact .up (ih rfl)
  | down named short here next ih =>
    rcases names with _ | ⟨first, names⟩
    · exact absurd (List.cons.inj e).1.symm named.notDot
    · obtain ⟨rfl, rfl⟩ := List.cons.inj e
      exact .down named short here (ih rfl)
  | file named =>
    rcases names with _ | ⟨first, names⟩
    · exact absurd (List.cons.inj e).1.symm named.notDot
    · simp at e
  | link named short here next ih =>
    rcases names with _ | ⟨first, names⟩
    · exact absurd (List.cons.inj e).1.symm named.notDot
    · obtain ⟨rfl, rfl⟩ := List.cons.inj e
      exact .link named short here (ih (List.append_assoc ..))

/-- A directory is found where its path leads with a dot behind it. -/
theorem find_eq_directory_iff_follow {path : String} : t.find path = .ok (.directory loc) ↔
    checkPath path = .ok () ∧
      t.follow false maxLinks (t.start path) (segments path ++ ["."]) = .ok (.taken loc) ∧
      t.get? loc = some .directory := by
  rw [find_eq_directory_iff, resolve_eq_taken_iff, follow_eq_taken_iff, and_assoc]
  refine and_congr_right fun _ => and_congr_left fun here => ?_
  exact ⟨fun route => route.append_dot here, Leads.of_append_dot⟩

/-- **Every spelling of a directory leads to it.** -/
theorem find_eq_directory_iff_respelled (spelled : Respells p q) (step : HasStep p)
    (short : q.utf8ByteSize < maxPath) :
    t.find q = .ok (.directory loc) ↔ t.find p = .ok (.directory loc) := by
  have asked : checkPath (below q []) = checkPath (below p []) :=
    checkPath_respelled spelled step (by simp) short
  have start : t.start (below q []) = t.start (below p []) := start_respelled spelled step
  rw [below_nil, below_nil] at asked start
  rw [find_eq_directory_iff_follow, find_eq_directory_iff_follow, asked, start,
    follow_respelled spelled ⟨".", by simp, by decide⟩]

end FileTree
end Expunge
