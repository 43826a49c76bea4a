import Expunge.Files.Access

/-!
# Building a file tree

The operations by which a tree comes to be: making directories, files and links with the directories
around them, and taking away an entry with everything below it. Links on the way are followed, as
they are for reading and writing.
-/

namespace Expunge.FileTree
set_option autoImplicit false
open Expunge.Path

/-- Makes a directory where nothing stands. -/
def makeDirectory (t : FileTree) (path : String) : Except IoError FileTree := do
  match ← t.resolve false path with
  | .vacant loc => .ok (t.put loc .directory)
  | .taken _ => .ok t

/-- Makes the directories on the way along names, all but the last; `before` spells the way so
far. -/
def makeAlong (t : FileTree) (before : String) : List FileName → Except IoError FileTree
  | [] | [_] => .ok t
  | name :: rest => do
    let directory := before ++ name
    let t ← if directory.isEmpty then .ok t else t.makeDirectory directory
    makeAlong t (directory ++ "/") rest

/-- Makes the directories around a path. -/
def makeAround (t : FileTree) (path : String) : Except IoError FileTree :=
  t.makeAlong "" (segments path)

/-- Makes a directory with those around it. -/
def addDirectory (t : FileTree) (path : String) : Except IoError FileTree := do
  (← t.makeAround path).makeDirectory path

/-- Makes a file with the directories around it. -/
def addFile (t : FileTree) (path : String) (bytes : ByteArray) : Except IoError FileTree := do
  (← t.makeAround path).writeBytes path bytes

/-- Makes a symbolic link with the directories around it. -/
def addLink (t : FileTree) (path target : String) : Except IoError FileTree := do
  let t ← t.makeAround path
  checkPath path
  let (above, name, _) := splitLast path
  match ← t.follow false maxLinks (t.start path) (above ++ ["."]) with
  | .vacant _ => .error .notFound
  | .taken dir => .ok (t.put (name :: dir) (.link target))

/-- Takes away what a path names, with everything below it. -/
def removeAll (t : FileTree) (path : String) : Except IoError FileTree := do
  checkPath path
  let (above, name, _) := splitLast path
  match ← t.follow false maxLinks (t.start path) (above ++ ["."]) with
  | .vacant _ => .error .notFound
  | .taken dir => .ok (t.eraseBelow (name :: dir))

end Expunge.FileTree
