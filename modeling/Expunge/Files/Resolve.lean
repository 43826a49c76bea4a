import Expunge.Files.IoError
import Expunge.Files.Tree

/-!
# Where a path leads

A path is followed name by name; a symbolic link on the way puts the names of its target in its
place. The walk between two links goes down the names of the path, and a path may meet 40 links,
so following always ends. A name longer than 255 bytes, or a path of 4096, leads nowhere.

A path is made canonical by asking for the real path of each entry on the way, so that this can
fail where the path itself leads to a directory: the real path of an entry behind a link may be too
long to be asked for.
-/

namespace Expunge
set_option autoImplicit false
open Expunge.Path

/-- The end of a walk along a path. -/
inductive Place
  /-- Something stands at the location. -/
  | taken (loc : Location)
  /-- Nothing stands at the location, but the directory around it is there. -/
  | vacant (loc : Location)
  deriving DecidableEq, Repr

/-- A path leads to a file, with its bytes, or to a directory. -/
inductive Found
  | file (loc : Location) (bytes : ByteArray)
  | directory (loc : Location)

/-- Where a path leads to. -/
def Found.loc : Found → Location
  | file loc _ | directory loc => loc

namespace FileTree

/-- How many symbolic links a path may meet. -/
def maxLinks : Nat := 40

/-- How many bytes a name may have. -/
def maxName : Nat := 255

/-- How many bytes a path may have, its end mark included. -/
def maxPath : Nat := 4096

/-- Follows names from a directory up to a link, and then goes on with `onLink` from where the
target of the link starts. With `creating` the last name is to be written, so that it may not
have a separator after it. -/
def followNames (t : FileTree) (creating : Bool)
    (onLink : Location → List FileName → Except IoError Place) (dir : Location) :
    List FileName → Except IoError Place
  | [] => .ok (.taken dir)
  | name :: rest =>
    if name = "" ∨ name = "." then followNames t creating onLink dir rest
    else if name = ".." then followNames t creating onLink dir.tail rest
    else if creating ∧ rest ≠ [] ∧ rest.all (· = "") then .error .isADirectory
    else if maxName < name.utf8ByteSize then .error .nameTooLong
    else
      match t.get? (name :: dir) with
      | none => if rest.all (· = "") then .ok (.vacant (name :: dir)) else .error .notFound
      | some .directory => followNames t creating onLink (name :: dir) rest
      | some (.file _) => if rest = [] then .ok (.taken (name :: dir)) else .error .notADirectory
      | some (.link target) =>
        onLink (if isAbsolute target then [] else dir) (segments target ++ rest)

/-- Follows names over at most `links` symbolic links. -/
def follow (t : FileTree) (creating : Bool) : Nat → Location → List FileName →
    Except IoError Place
  | 0 => t.followNames creating fun _ _ => .error .tooManyLinks
  | links + 1 => t.followNames creating (t.follow creating links)

/-- A path that can be asked for at all. -/
def checkPath (path : String) : Except IoError Unit :=
  if path.toList.contains '\x00' then .error .nulInPath
  else if path.isEmpty then .error .notFound
  else if maxPath ≤ path.utf8ByteSize then .error .nameTooLong
  else .ok ()

/-- The directory where a path starts. -/
def start (t : FileTree) (path : String) : Location := if isAbsolute path then [] else t.home

/-- Where a path leads, all links followed. -/
def resolve (t : FileTree) (creating : Bool) (path : String) : Except IoError Place := do
  checkPath path
  t.follow creating maxLinks (t.start path) (segments path)

/-- What stands where a path leads. -/
def find (t : FileTree) (path : String) : Except IoError Found := do
  match ← t.resolve false path with
  | .vacant _ => .error .notFound
  | .taken loc =>
    match t.get? loc with
    | some .directory => .ok (.directory loc)
    | some (.file bytes) => .ok (.file loc bytes)
    | some (.link _) | none => .error .notFound

/-- How many bytes the path without links of a location has. -/
def pathSize : Location → Nat
  | [] => 0
  | name :: dir => pathSize dir + (name.utf8ByteSize + 1)

/-- The real path of each entry on the way along names can be asked for, up to a link, and from
there on as `onLink` tells. -/
def tracesNames (t : FileTree) (onLink : Location → List FileName → Bool) (dir : Location) :
    List FileName → Bool
  | [] => true
  | name :: rest =>
    if name = "" ∨ name = "." then tracesNames t onLink dir rest
    else if name = ".." then tracesNames t onLink dir.tail rest
    else if maxPath ≤ pathSize (name :: dir) then false
    else
      match t.get? (name :: dir) with
      | some .directory => tracesNames t onLink (name :: dir) rest
      | some (.link target) =>
        onLink (if isAbsolute target then [] else dir) (segments target ++ rest)
      | some (.file _) | none => true

/-- The real path of each entry on the way can be asked for, over at most `links` symbolic
links. -/
def traces (t : FileTree) : Nat → Location → List FileName → Bool
  | 0 => t.tracesNames fun _ _ => true
  | links + 1 => t.tracesNames (t.traces links)

/-- The location that a path leads to, as its real path tells it. -/
def canonicalize (t : FileTree) (path : String) : Except IoError Location := do
  let found ← t.find path
  if t.traces maxLinks (t.start path) (segments path) then .ok found.loc else .error .nameTooLong

/-- The path leads to a directory. -/
def isDirectory (t : FileTree) (path : String) : Bool :=
  match t.find path with
  | .ok (.directory _) => true
  | _ => false

/-- The path leads to a file. -/
def isFile (t : FileTree) (path : String) : Bool :=
  match t.find path with
  | .ok (.file ..) => true
  | _ => false

/-- What is found is asked for by a text that is not too long. -/
theorem size_lt_of_find {t : FileTree} {path : String} {found : Found}
    (h : t.find path = .ok found) : path.utf8ByteSize < maxPath := by
  refine Nat.lt_of_not_le fun long => ?_
  have asked : ∃ cause, checkPath path = .error cause := by
    unfold checkPath
    split
    · exact ⟨_, rfl⟩
    · split
      · exact ⟨_, rfl⟩
      · exact ⟨_, rfl⟩
  obtain ⟨cause, refused⟩ := asked
  simp [find, resolve, refused, bind, Except.bind] at h

/-- A directory that is found stands where it was found. -/
theorem get?_of_find_eq_directory {t : FileTree} {path : String} {loc : Location}
    (h : t.find path = .ok (.directory loc)) : t.get? loc = some .directory := by
  unfold find at h
  cases hr : t.resolve false path with
  | error e => simp [hr, bind, Except.bind] at h
  | ok place =>
    cases place with
    | vacant l => simp [hr, bind, Except.bind] at h
    | taken l =>
      simp only [hr, bind, Except.bind] at h
      split at h <;> simp_all

/-- A file that is found stands where it was found. -/
theorem get?_of_find_eq_file {t : FileTree} {path : String} {loc : Location} {bytes : ByteArray}
    (h : t.find path = .ok (.file loc bytes)) : t.get? loc = some (.file bytes) := by
  unfold find at h
  cases hr : t.resolve false path with
  | error e => simp [hr, bind, Except.bind] at h
  | ok place =>
    cases place with
    | vacant l => simp [hr, bind, Except.bind] at h
    | taken l =>
      simp only [hr, bind, Except.bind] at h
      split at h <;> simp_all

end FileTree
end Expunge
