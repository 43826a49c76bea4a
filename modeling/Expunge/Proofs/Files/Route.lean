import Mathlib.Data.List.Infix
import Expunge.Proofs.Files.Spelling

/-!
# Routes through a file tree

`Leads` says step by step how names lead from a directory to a place where something stands. It is
what following finds (`follow_eq_taken_iff`), so a fact about paths is proved by induction on the
route. A route is a matter of the entries on it (`Leads.transfer`): it stays when files change, as
long as a file stands at its end (`Leads.of_agree`).
-/

namespace Expunge
set_option autoImplicit false
open Expunge.Path

/-- The same entry, or two files. -/
inductive Entry.Alike : Entry → Entry → Prop
  | refl (e : Entry) : Alike e e
  | file (bytes bytes' : ByteArray) : Alike (.file bytes) (.file bytes')

theorem Entry.Alike.trans {e₁ e₂ e₃ : Entry} (h : e₁.Alike e₂) (h' : e₂.Alike e₃) : e₁.Alike e₃ := by
  cases h with
  | refl => exact h'
  | file bytes _ =>
    cases h' with
    | refl => exact .file bytes _
    | file _ bytes' => exact .file bytes bytes'

namespace FileTree

/-- Names lead from a directory to a location, over at most so many links. -/
inductive Leads (t : FileTree) : Nat → Location → List FileName → Location → Prop
  | arrived {links : Nat} {dir : Location} : Leads t links dir [] dir
  | stay {links : Nat} {dir loc : Location} {name : FileName} {rest : List FileName}
      (dot : name = "" ∨ name = ".") (next : Leads t links dir rest loc) :
      Leads t links dir (name :: rest) loc
  | up {links : Nat} {dir loc : Location} {rest : List FileName}
      (next : Leads t links dir.tail rest loc) : Leads t links dir (".." :: rest) loc
  | down {links : Nat} {dir loc : Location} {name : FileName} {rest : List FileName}
      (named : IsName name) (short : name.utf8ByteSize ≤ maxName)
      (here : t.get? (name :: dir) = some .directory)
      (next : Leads t links (name :: dir) rest loc) : Leads t links dir (name :: rest) loc
  | file {links : Nat} {dir : Location} {name : FileName} {bytes : ByteArray}
      (named : IsName name) (short : name.utf8ByteSize ≤ maxName)
      (here : t.get? (name :: dir) = some (.file bytes)) :
      Leads t links dir [name] (name :: dir)
  | link {links : Nat} {dir loc : Location} {name target : String} {rest : List FileName}
      (named : IsName name) (short : name.utf8ByteSize ≤ maxName)
      (here : t.get? (name :: dir) = some (.link target))
      (next : Leads t links (if isAbsolute target then [] else dir) (segments target ++ rest) loc) :
      Leads t (links + 1) dir (name :: rest) loc

variable {t t' : FileTree} {links : Nat} {dir loc : Location} {name : FileName}
  {names rest behind : List FileName} {onLink : Location → List FileName → Except IoError Place}

/-! ### One step of following -/

theorem followNames_dot {creating : Bool} (dot : name = "" ∨ name = ".") :
    t.followNames creating onLink dir (name :: rest) = t.followNames creating onLink dir rest := by
  rw [followNames, if_pos dot]

theorem followNames_up {creating : Bool} :
    t.followNames creating onLink dir (".." :: rest) =
      t.followNames creating onLink dir.tail rest := by
  rw [followNames, if_neg (by decide), if_pos rfl]

/-- A name is looked up, unless it is to be created with a separator behind it. -/
theorem followNames_name {creating : Bool} (named : IsName name)
    (short : name.utf8ByteSize ≤ maxName)
    (ended : ¬ (creating = true ∧ rest ≠ [] ∧ rest.all (· = "") = true)) :
    t.followNames creating onLink dir (name :: rest) =
      match t.get? (name :: dir) with
      | none => if rest.all (· = "") then .ok (.vacant (name :: dir)) else .error .notFound
      | some .directory => t.followNames creating onLink (name :: dir) rest
      | some (.file _) => if rest = [] then .ok (.taken (name :: dir)) else .error .notADirectory
      | some (.link target) =>
        onLink (if isAbsolute target then [] else dir) (segments target ++ rest) := by
  have notDot : ¬ (name = "" ∨ name = ".") := fun h => h.elim named.some named.notDot
  have fits : ¬ maxName < name.utf8ByteSize := Nat.not_lt.2 short
  exact (if_neg notDot).trans ((if_neg named.notUp).trans ((if_neg ended).trans (if_neg fits)))

/-! ### Following and routes -/

/-- Following finds a route, if it does so from every link on. -/
theorem leads_of_followNames
    (afterLink : ∀ {dir name rest target}, IsName name → name.utf8ByteSize ≤ maxName →
      t.get? (name :: dir) = some (.link target) →
      onLink (if isAbsolute target then [] else dir) (segments target ++ rest) = .ok (.taken loc) →
      t.Leads links dir (name :: rest) loc)
    (h : t.followNames false onLink dir names = .ok (.taken loc)) : t.Leads links dir names loc := by
  induction names generalizing dir with
  | nil =>
    rw [followNames, Except.ok.injEq, Place.taken.injEq] at h
    exact h ▸ .arrived
  | cons name rest ih =>
    rcases name_cases name with dot | rfl | named
    · exact .stay dot (ih (by rwa [followNames_dot dot] at h))
    · exact .up (ih (by rwa [followNames_up] at h))
    by_cases short : name.utf8ByteSize ≤ maxName
    · rw [followNames_name named short (by simp)] at h
      split at h
      · split at h <;> simp at h
      · rename_i here
        exact .down named short here (ih h)
      · rename_i here
        split at h
        · rename_i last
          rw [Except.ok.injEq, Place.taken.injEq] at h
          subst h last
          exact .file named short here
        · simp at h
      · rename_i here
        exact afterLink named short here h
    · rw [followNames, if_neg (not_or.2 ⟨named.some, named.notDot⟩), if_neg named.notUp,
        if_neg (by simp), if_pos (Nat.lt_of_not_le short)] at h
      simp at h

theorem leads_of_follow (h : t.follow false links dir names = .ok (.taken loc)) :
    t.Leads links dir names loc := by
  induction links generalizing dir names with
  | zero => exact leads_of_followNames (by simp) h
  | succ links ih =>
    exact leads_of_followNames (fun named short here next => .link named short here (ih next)) h

/-- What is done at a link, when so many links may be met. -/
theorem exists_follow_eq (t : FileTree) (creating : Bool) (links : Nat) :
    ∃ onLink, t.follow creating links = t.followNames creating onLink := by
  cases links with
  | zero => exact ⟨_, rfl⟩
  | succ links => exact ⟨_, rfl⟩

section
variable {creating : Bool}

theorem follow_nil : t.follow creating links dir [] = .ok (.taken dir) := by
  obtain ⟨onLink, e⟩ := exists_follow_eq t creating links
  rw [e, followNames]

theorem follow_dot (dot : name = "" ∨ name = ".") :
    t.follow creating links dir (name :: rest) = t.follow creating links dir rest := by
  obtain ⟨onLink, e⟩ := exists_follow_eq t creating links
  rw [e, followNames_dot dot]

theorem follow_up : t.follow creating links dir (".." :: rest) =
    t.follow creating links dir.tail rest := by
  obtain ⟨onLink, e⟩ := exists_follow_eq t creating links
  rw [e, followNames_up]

variable (named : IsName name) (short : name.utf8ByteSize ≤ maxName)
  (ended : ¬ (creating = true ∧ rest ≠ [] ∧ rest.all (· = "") = true))
include named short ended

theorem follow_directory (here : t.get? (name :: dir) = some .directory) :
    t.follow creating links dir (name :: rest) = t.follow creating links (name :: dir) rest := by
  obtain ⟨onLink, e⟩ := exists_follow_eq t creating links
  rw [e, followNames_name named short ended, here]

theorem follow_link {target : String} (here : t.get? (name :: dir) = some (.link target)) :
    t.follow creating (links + 1) dir (name :: rest) =
      t.follow creating links (if isAbsolute target then [] else dir) (segments target ++ rest) := by
  rw [follow, followNames_name named short ended, here]

end

/-- A file ends the path. -/
theorem follow_file {creating : Bool} {bytes : ByteArray} (named : IsName name)
    (short : name.utf8ByteSize ≤ maxName) (here : t.get? (name :: dir) = some (.file bytes)) :
    t.follow creating links dir [name] = .ok (.taken (name :: dir)) := by
  obtain ⟨onLink, e⟩ := exists_follow_eq t creating links
  rw [e, followNames_name named short (by simp), here]
  rfl

theorem Leads.follow_eq (h : t.Leads links dir names loc) :
    t.follow false links dir names = .ok (.taken loc) := by
  induction h with
  | arrived => exact follow_nil
  | stay dot _ ih => rw [follow_dot dot, ih]
  | up _ ih => rw [follow_up, ih]
  | down named short here _ ih => rw [follow_directory named short (by simp) here, ih]
  | file named short here => exact follow_file named short here
  | link named short here _ ih => rw [follow_link named short (by simp) here, ih]

/-- Following ends where something stands exactly if there is a route to there. -/
theorem follow_eq_taken_iff : t.follow false links dir names = .ok (.taken loc) ↔
    t.Leads links dir names loc :=
  ⟨leads_of_follow, Leads.follow_eq⟩

/-! ### The first name of a route -/

theorem Leads.of_dot (dot : name = "" ∨ name = ".") (h : t.Leads links dir (name :: rest) loc) :
    t.Leads links dir rest loc := by
  cases h with
  | stay _ next => exact next
  | up _ => exact absurd dot (by decide)
  | down named | file named | link named => exact absurd dot (not_or.2 ⟨named.some, named.notDot⟩)

theorem Leads.of_up (h : t.Leads links dir (".." :: rest) loc) : t.Leads links dir.tail rest loc := by
  cases h with
  | stay dot _ => exact absurd dot (by decide)
  | up next => exact next
  | down named | file named | link named => exact absurd rfl named.notUp

section
variable (named : IsName name) (h : t.Leads links dir (name :: rest) loc)
include named h

/-- What stands at the first name of a route. -/
theorem Leads.entry_cases :
    (t.get? (name :: dir) = some .directory ∧ t.Leads links (name :: dir) rest loc) ∨
    (∃ bytes, t.get? (name :: dir) = some (.file bytes) ∧ rest = [] ∧ loc = name :: dir) ∨
    ∃ target fewer, t.get? (name :: dir) = some (.link target) ∧
      t.Leads fewer (if isAbsolute target then [] else dir) (segments target ++ rest) loc := by
  cases h with
  | stay dot _ => exact absurd dot (not_or.2 ⟨named.some, named.notDot⟩)
  | up _ => exact absurd rfl named.notUp
  | down _ _ here next => exact .inl ⟨here, next⟩
  | file _ _ here => exact .inr (.inl ⟨_, here, rfl, rfl⟩)
  | link _ _ here next => exact .inr (.inr ⟨_, _, here, next⟩)

theorem Leads.of_directory (here : t.get? (name :: dir) = some .directory) :
    t.Leads links (name :: dir) rest loc := by
  rcases h.entry_cases named with ⟨-, next⟩ | ⟨_, here', -⟩ | ⟨_, _, here', -⟩
  · exact next
  · cases here.symm.trans here'
  · cases here.symm.trans here'

/-- A route ends at the first file on it. -/
theorem Leads.of_file {bytes : ByteArray} (here : t.get? (name :: dir) = some (.file bytes)) :
    rest = [] ∧ loc = name :: dir := by
  rcases h.entry_cases named with ⟨here', -⟩ | ⟨_, -, last⟩ | ⟨_, _, here', -⟩
  · cases here.symm.trans here'
  · exact last
  · cases here.symm.trans here'

theorem Leads.of_link {target : String} (here : t.get? (name :: dir) = some (.link target)) :
    ∃ fewer, t.Leads fewer (if isAbsolute target then [] else dir) (segments target ++ rest) loc := by
  rcases h.entry_cases named with ⟨here', -⟩ | ⟨_, here', -⟩ | ⟨target', fewer, here', next⟩
  · cases here.symm.trans here'
  · cases here.symm.trans here'
  · cases here.symm.trans here'
    exact ⟨fewer, next⟩

end

/-! ### What a path leads to -/

theorem resolve_eq_taken_iff {path : String} : t.resolve false path = .ok (.taken loc) ↔
    checkPath path = .ok () ∧ t.Leads maxLinks (t.start path) (segments path) loc := by
  rw [← follow_eq_taken_iff]
  cases h : checkPath path with
  | error e => simp [resolve, h, bind, Except.bind]
  | ok _ => simp [resolve, h, bind, Except.bind]

/-- What is found at the end of a path stands where the path leads. -/
theorem resolve_of_find {path : String} {found : Found} (h : t.find path = .ok found) :
    t.resolve false path = .ok (.taken found.loc) := by
  cases e : t.resolve false path with
  | error cause => simp [find, e, bind, Except.bind] at h
  | ok place =>
    cases place with
    | vacant l => simp [find, e, bind, Except.bind] at h
    | taken l =>
      simp only [find, e, bind, Except.bind] at h
      split at h
      · cases h
        rfl
      · cases h
        rfl
      · cases h
      · cases h

theorem find_eq_file_iff {path : String} {bytes : ByteArray} :
    t.find path = .ok (.file loc bytes) ↔
      t.resolve false path = .ok (.taken loc) ∧ t.get? loc = some (.file bytes) := by
  constructor
  · intro h
    exact ⟨resolve_of_find h, get?_of_find_eq_file h⟩
  · rintro ⟨e, here⟩
    simp [find, e, here, bind, Except.bind]

theorem find_eq_directory_iff {path : String} :
    t.find path = .ok (.directory loc) ↔
      t.resolve false path = .ok (.taken loc) ∧ t.get? loc = some .directory := by
  constructor
  · intro h
    exact ⟨resolve_of_find h, get?_of_find_eq_directory h⟩
  · rintro ⟨e, here⟩
    simp [find, e, here, bind, Except.bind]

theorem isDirectory_iff {path : String} :
    t.isDirectory path = true ↔ ∃ loc, t.find path = .ok (.directory loc) := by
  unfold isDirectory
  split <;> simp_all

/-- What is found is asked for by a text that is not too long. -/
theorem checkPath_of_find {path : String} {found : Found} (h : t.find path = .ok found) :
    path ≠ "" ∧ path.utf8ByteSize < maxPath := by
  obtain ⟨asked, -⟩ := resolve_eq_taken_iff.1 (resolve_of_find h)
  exact (checkPath_eq_ok_iff.1 asked).2

theorem ne_empty_of_find {path : String} {found : Found} (h : t.find path = .ok found) :
    path ≠ "" := (checkPath_of_find h).1

theorem resolve_of_loc {path : String} (place : (t.find path).toOption.map Found.loc = some loc) :
    t.resolve false path = .ok (.taken loc) := by
  cases found : t.find path with
  | error cause =>
    rw [found] at place
    cases place
  | ok x =>
    rw [found] at place
    rw [resolve_of_find found, Option.some.inj place]

/-- Paths that lead to one place find the same there, if the same stands there. -/
theorem find_eq_find {path path' : String}
    (place : (t.find path).toOption.map Found.loc = some loc)
    (place' : (t'.find path').toOption.map Found.loc = some loc)
    (same : t'.get? loc = t.get? loc) : t'.find path' = t.find path := by
  unfold find
  rw [resolve_of_loc place, resolve_of_loc place']
  simp only [bind, Except.bind, same]

/-! ### The last name of a route -/

/-- Where the target of a link starts. -/
theorem get?_target (here : t.get? dir = some .directory) (target : String) :
    t.get? (if isAbsolute target then [] else dir) = some .directory := by
  split
  · rfl
  · exact here

theorem get?_start (t : FileTree) (path : String) : t.get? (t.start path) = some .directory := by
  rw [FileTree.start]
  split
  · rfl
  · exact t.get?_home

/-- A route from a directory ends at a directory or a file. -/
theorem Leads.stands (h : t.Leads links dir names loc) (inside : t.get? dir = some .directory) :
    t.get? loc = some .directory ∨ ∃ bytes, t.get? loc = some (.file bytes) := by
  induction h with
  | arrived => exact .inl inside
  | stay _ _ ih => exact ih inside
  | up _ ih => exact ih (get?_tail inside)
  | down _ _ here _ ih => exact ih here
  | file _ _ here => exact .inr ⟨_, here⟩
  | link _ _ _ _ ih => exact ih (get?_target inside _)

/-- Empty parts and dots lead nowhere else. -/
theorem leads_stay {dots : List FileName} (h : ∀ d ∈ dots, d = "" ∨ d = ".") :
    t.Leads links dir dots dir := by
  induction dots with
  | nil => exact .arrived
  | cons d dots ih => exact .stay (h d (by simp)) (ih fun d' h' => h d' (by simp [h']))

/-- A route through a name goes through the directory around it. -/
theorem Leads.exists_around (h : t.Leads links dir (names ++ name :: behind) loc) :
    ∃ around links', links' ≤ links ∧
      (t.get? dir = some .directory → t.get? around = some .directory) ∧
      (∀ dots : List FileName, (∀ d ∈ dots, d = "" ∨ d = ".") →
        t.Leads links dir (names ++ dots) around) ∧
      t.Leads links' around (name :: behind) loc := by
  generalize e : names ++ name :: behind = all at h
  have route := h
  induction h generalizing names with
  | arrived => simp at e
  | stay dot next ih =>
    rcases names with _ | ⟨n, names⟩
    · exact ⟨_, _, Nat.le_refl _, id, fun _ => leads_stay, by rwa [← e] at route⟩
    · obtain ⟨rfl, rfl⟩ := List.cons.inj e
      obtain ⟨around, links', fewer, ground, routes, last⟩ := ih rfl next
      exact ⟨around, links', fewer, ground, fun dots h => .stay dot (routes dots h), last⟩
  | up next ih =>
    rcases names with _ | ⟨n, names⟩
    · exact ⟨_, _, Nat.le_refl _, id, fun _ => leads_stay, by rwa [← e] at route⟩
    · obtain ⟨rfl, rfl⟩ := List.cons.inj e
      obtain ⟨around, links', fewer, ground, routes, last⟩ := ih rfl next
      exact ⟨around, links', fewer, ground ∘ get?_tail, fun dots h => .up (routes dots h), last⟩
  | down named short here next ih =>
    rcases names with _ | ⟨n, names⟩
    · exact ⟨_, _, Nat.le_refl _, id, fun _ => leads_stay, by rwa [← e] at route⟩
    · obtain ⟨rfl, rfl⟩ := List.cons.inj e
      obtain ⟨around, links', fewer, ground, routes, last⟩ := ih rfl next
      exact ⟨around, links', fewer, fun _ => ground here,
        fun dots h => .down named short here (routes dots h), last⟩
  | file named short here =>
    rcases names with _ | ⟨n, names⟩
    · exact ⟨_, _, Nat.le_refl _, id, fun _ => leads_stay, by rwa [← e] at route⟩
    · simp at e
  | @link links dir loc _ target rest named short here next ih =>
    rcases names with _ | ⟨n, names⟩
    · exact ⟨dir, links + 1, Nat.le_refl _, id, fun _ => leads_stay, by rwa [← e] at route⟩
    · obtain ⟨rfl, rfl⟩ := List.cons.inj e
      -- the names of the target come in front of those that are left
      obtain ⟨around, links', fewer, ground, routes, last⟩ :=
        ih (List.append_assoc (segments target) names _) next
      refine ⟨around, links', Nat.le_succ_of_le fewer, fun inside => ground (get?_target inside target),
        fun dots h => .link named short here ?_, last⟩
      have through := routes dots h
      rwa [List.append_assoc] at through

/-- The route of a path that ends in a name: the parts before the name lead to the directory around
the entry, with dots behind them too. -/
theorem exists_route {directory : String} (named : IsFileName name) (some : directory ≠ "")
    (h : t.resolve false (join directory name) = .ok (.taken loc)) :
    ∃ names around links, segments (join directory name) = names ++ [name] ∧
      (segments directory = names ∨ segments directory = names ++ [""]) ∧
      checkPath (join directory name) = .ok () ∧
      t.Leads maxLinks (t.start directory) (names ++ [name]) loc ∧
      (∀ dots : List FileName, (∀ d ∈ dots, d = "" ∨ d = ".") →
        t.Leads maxLinks (t.start directory) (names ++ dots) around) ∧
      t.Leads links around [name] loc := by
  obtain ⟨names, -, joined, alone⟩ := exists_segments_join some named.plain
  obtain ⟨asked, route⟩ := resolve_eq_taken_iff.1 h
  rw [joined, start_join t some] at route
  obtain ⟨around, links, -, -, routes, last⟩ := route.exists_around
  exact ⟨names, around, links, joined, alone, asked, route, routes, last⟩

/-- A path below a directory leads on from where the directory is. -/
theorem exists_resolve_below {directory : String} {rel : RelPath} (some : directory ≠ "")
    (named : ∀ n ∈ name :: rel, IsFileName n)
    (h : t.resolve false (below directory (name :: rel)) = .ok (.taken loc)) :
    ∃ around links, t.resolve false directory = .ok (.taken around) ∧
      t.Leads links around (name :: rel) loc := by
  obtain ⟨names, parts, alone⟩ := exists_segments_below some named
  obtain ⟨asked, route⟩ := resolve_eq_taken_iff.1 h
  rw [parts, start_below t _ some] at route
  obtain ⟨around, links, -, -, routes, last⟩ := route.exists_around
  refine ⟨around, links, resolve_eq_taken_iff.2 ⟨checkPath_of_below some asked, ?_⟩, last⟩
  rcases alone with alone | alone
  · simpa [alone] using routes [] (by simp)
  · simpa [alone] using routes [""] (by simp)

/-- A path that ends in a name leads to an entry of what the path before it leads to. -/
theorem exists_resolve_directory {directory : String} (named : IsFileName name)
    (some : directory ≠ "") (h : t.resolve false (join directory name) = .ok (.taken loc)) :
    ∃ around links, t.resolve false directory = .ok (.taken around) ∧
      t.Leads links around [name] loc :=
  exists_resolve_below some (by simpa using named) h

/-! ### Routes in another tree -/

/-- A route is one in each tree that has something alike at the names on it. -/
theorem Leads.transfer (h : t.Leads links dir names loc)
    (alike : ∀ {links dir name rest e}, IsName name → t.get? (name :: dir) = some e →
      t.Leads links dir (name :: rest) loc → ∃ e', t'.get? (name :: dir) = some e' ∧ e.Alike e') :
    t'.Leads links dir names loc := by
  induction h with
  | arrived => exact .arrived
  | stay dot _ ih => exact .stay dot (ih alike)
  | up _ ih => exact .up (ih alike)
  | down named short here next ih =>
    obtain ⟨e', here', like⟩ := alike named here (.down named short here next)
    cases like
    exact .down named short here' (ih alike)
  | @file links dir name _ named short here =>
    have route : t.Leads links dir [name] (name :: dir) := .file named short here
    obtain ⟨e', here', like⟩ := alike named here route
    cases like
    · exact .file named short here'
    · exact .file named short here'
  | link named short here next ih =>
    obtain ⟨e', here', like⟩ := alike named here (.link named short here next)
    cases like
    exact .link named short here' (ih alike)

/-- A route stays if the directories and links do, and a file stays one at its end. -/
theorem Leads.of_agree (h : t.Leads links dir names loc)
    (same : ∀ l, (∀ bytes, t.get? l ≠ some (.file bytes)) → t'.get? l = t.get? l)
    (last : ∀ bytes, t.get? loc = some (.file bytes) → ∃ bytes', t'.get? loc = some (.file bytes')) :
    t'.Leads links dir names loc := by
  refine h.transfer fun {_ dir name _ e} named here route => ?_
  cases e with
  | file bytes =>
    obtain ⟨-, rfl⟩ := route.of_file named here
    obtain ⟨bytes', here'⟩ := last bytes here
    exact ⟨_, here', .file bytes bytes'⟩
  | directory => exact ⟨_, (same _ (by simp [here])).trans here, .refl _⟩
  | link target => exact ⟨_, (same _ (by simp [here])).trans here, .refl _⟩

theorem start_congr (home : t'.home = t.home) (path : String) : t'.start path = t.start path := by
  rw [start, start, home]

/-- A file is found again where files have changed. -/
theorem find_of_agree {path : String} {bytes bytes' : ByteArray}
    (found : t.find path = .ok (.file loc bytes)) (home : t'.home = t.home)
    (same : ∀ l, (∀ bytes, t.get? l ≠ some (.file bytes)) → t'.get? l = t.get? l)
    (here : t'.get? loc = some (.file bytes')) : t'.find path = .ok (.file loc bytes') := by
  rw [find_eq_file_iff, resolve_eq_taken_iff] at found ⊢
  obtain ⟨⟨asked, route⟩, -⟩ := found
  rw [start_congr home]
  exact ⟨⟨asked, route.of_agree same fun _ _ => ⟨bytes', here⟩⟩, here⟩

end FileTree
end Expunge
