import Expunge.Files.Resolve

/-!
# The walk through a directory

The walk lists a directory, goes into the directories it holds and picks files. Links to
directories are followed, but a directory is known by its real path: it is listed once, and one
that is met again on the way down to itself is an error. Where the real path cannot be asked for, a
directory is known by the path under which it is met, and then the walk does not notice that it has
been there. It ends all the same, because paths get longer on the way down and a path has less than
4096 bytes.
-/

namespace Expunge
set_option autoImplicit false
open Expunge.Path

/-- Why a directory could not be walked. -/
inductive WalkFault
  /-- The directory is one of those around it. -/
  | cycle
  | io (cause : IoError)
  deriving DecidableEq, Repr

/-- What a walk goes through, and what it picks. -/
structure Scope where
  tree : FileTree
  /-- The path of the directory where the walk starts. -/
  root : String
  /-- The file is to be picked. -/
  selects : RelPath → Bool
  /-- The entry is to be left out; the second argument tells whether it is a directory. -/
  ignores : RelPath → Bool → Bool

/-- How a directory is told from others. A path that spells a real path has that real path, so no
directory is told by the spelling of another one's. -/
inductive DirectoryKey
  /-- By its real path. -/
  | real (loc : Location)
  /-- By the path under which it is met, where the real one cannot be asked for. -/
  | spelled (rel : RelPath)
  deriving DecidableEq, Repr

namespace Scope

/-- What an entry below the root leads to. -/
def find (s : Scope) (rel : RelPath) : Except IoError Found := s.tree.find (below s.root rel)

/-- How the directory at an entry below the root is told from others. -/
def key (s : Scope) (rel : RelPath) : DirectoryKey :=
  match s.tree.canonicalize (below s.root rel) with
  | .ok loc => .real loc
  | .error _ => .spelled rel

/-- How many bytes a path below the root may still grow by. -/
def roomBelow (s : Scope) (rel : RelPath) : Nat :=
  FileTree.maxPath - (below s.root rel).utf8ByteSize

/-- The path of an entry of a directory is longer than that of the directory. -/
theorem roomBelow_lt {s : Scope} {rel : RelPath} {loc : Location} {name : FileName}
    (here : s.find rel = .ok (.directory loc)) (mem : name ∈ s.tree.children loc) :
    s.roomBelow (rel ++ [name]) < s.roomBelow rel := by
  have short : (below s.root rel).utf8ByteSize < FileTree.maxPath := FileTree.size_lt_of_find here
  have longer := utf8ByteSize_lt_join (below s.root rel)
    (FileTree.isFileName_of_mem_children mem).some
  rw [roomBelow, roomBelow, below_append]
  omega

end Scope

/-- How far a walk has come. -/
structure WalkState where
  /-- The directories that were listed. -/
  visited : List DirectoryKey := []
  /-- The files that were picked. -/
  files : List RelPath := []
  errors : List (RelPath × WalkFault) := []
  deriving Inhabited

namespace WalkState

/-- Notes a directory that could not be walked. -/
def fail (w : WalkState) (rel : RelPath) (fault : WalkFault) : WalkState :=
  { w with errors := w.errors ++ [(rel, fault)] }

/-- Notes that a directory is listed. -/
def visit (w : WalkState) (key : DirectoryKey) : WalkState :=
  { w with visited := key :: w.visited }

/-- Picks a file. -/
def pick (w : WalkState) (rel : RelPath) : WalkState := { w with files := w.files ++ [rel] }

end WalkState

/-- Walks the directory at `rel`, below the directories in `ancestors`. -/
def walkDirectory (s : Scope) (ancestors : List DirectoryKey) (rel : RelPath) (w : WalkState) :
    WalkState :=
  match _here : s.find rel with
  | .error cause => w.fail rel (.io cause)
  | .ok (.file ..) => w.fail rel (.io .notADirectory)
  | .ok (.directory loc) =>
    if s.key rel ∈ ancestors then w.fail rel .cycle
    else if s.key rel ∈ w.visited then w
    else
      (s.tree.children loc).attach.foldl (fun w ⟨name, _listed⟩ =>
        let entry := rel ++ [name]
        match s.find entry with
        | .ok (.directory _) =>
          if s.ignores entry true then w else walkDirectory s (s.key rel :: ancestors) entry w
        | .ok (.file ..) =>
          if !s.ignores entry false && s.selects entry then w.pick entry else w
        | .error _ => w) (w.visit (s.key rel))
termination_by s.roomBelow rel
decreasing_by exact Scope.roomBelow_lt _here _listed

/-- The walk from the root. -/
def Scope.walk (s : Scope) : WalkState := walkDirectory s [] [] {}

end Expunge
