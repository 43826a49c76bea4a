import Expunge.Files.Resolve

/-!
# Reading, writing and deleting

The operations on files that a run is made of. Reading follows every link. Writing replaces the
content of a file, or makes a new one where a link leads to nothing. Deleting takes the named
entry itself away, a link and not its target. An operation whose path leads to its place can still
be refused there, and then nothing has changed.
-/

namespace Expunge
set_option autoImplicit false
open Expunge.Path

namespace FileTree

/-- Fails if a tree refuses an access. -/
def permit (t : FileTree) (access : Access) (loc : Location) : Except IoError Unit :=
  match t.refusals loc access with
  | some cause => .error cause
  | none => .ok ()

/-- The size that is told for a directory. -/
def directorySize : Nat := 4096

/-- The size of what a path leads to, in bytes. -/
def sizeOf (t : FileTree) (path : String) : Except IoError Nat := do
  match ← t.find path with
  | .file _ bytes => .ok bytes.size
  | .directory _ => .ok directorySize

/-- The bytes of a file. -/
def readBytes (t : FileTree) (path : String) : Except IoError ByteArray := do
  match ← t.find path with
  | .directory _ => .error .isADirectory
  | .file loc bytes => do
    t.permit .read loc
    .ok bytes

/-- The text of a file. -/
def readText (t : FileTree) (path : String) : Except IoError String := do
  match String.fromUTF8? (← t.readBytes path) with
  | some s => .ok s
  | none => .error .notUtf8

/-- Where a write to a path goes: to a file, or to a place where one can be made. -/
def writePlace (t : FileTree) (path : String) : Except IoError Location := do
  match ← t.resolve true path with
  | .vacant loc => .ok loc
  | .taken loc => if t.get? loc = some .directory then .error .isADirectory else .ok loc

/-- Writes bytes to a file. -/
def writeBytes (t : FileTree) (path : String) (bytes : ByteArray) : Except IoError FileTree := do
  let loc ← t.writePlace path
  t.permit .write loc
  .ok (t.put loc (.file bytes))

/-- Writes a text to a file. -/
def write (t : FileTree) (path : String) (content : String) : Except IoError FileTree :=
  t.writeBytes path content.toUTF8

/-- The directory, the name and the separators after it that a path ends in. -/
def splitLast (path : String) : List FileName × FileName × Bool :=
  let trailing := (segments path).reverse.takeWhile (· = "")
  match (segments path).reverse.dropWhile (· = "") with
  | [] => ([], "", true)
  | last :: above => (above.reverse, last, !trailing.isEmpty)

/-- The entry that a path names, a link at its end not followed. -/
def namedPlace (t : FileTree) (path : String) : Except IoError Location := do
  checkPath path
  let (above, name, slash) := splitLast path
  match ← t.follow false maxLinks (t.start path) (above ++ ["."]) with
  | .vacant _ => .error .notFound
  | .taken dir =>
    if name = "" ∨ name = "." ∨ name = ".." then .error .isADirectory
    else if maxName < name.utf8ByteSize then .error .nameTooLong
    else
      match t.get? (name :: dir) with
      | none => .error .notFound
      | some .directory => .error .isADirectory
      | some (.file _) | some (.link _) =>
        if slash then .error .notADirectory else .ok (name :: dir)

/-- Deletes the file or link that a path names. -/
def remove (t : FileTree) (path : String) : Except IoError FileTree := do
  let loc ← t.namedPlace path
  t.permit .remove loc
  .ok (t.erase loc)

/-! ### When the operations succeed -/

variable {t t' : FileTree} {path content : String} {loc : Location} {access : Access}

theorem write_eq_ok_iff : t.write path content = .ok t' ↔
    ∃ loc, t.writePlace path = .ok loc ∧ t.refusals loc .write = none ∧
      t' = t.put loc (.file content.toUTF8) := by
  cases place : t.writePlace path with
  | error cause => simp [write, writeBytes, place, bind, Except.bind]
  | ok loc =>
    cases refused : t.refusals loc .write <;>
      simp [write, writeBytes, permit, place, refused, bind, Except.bind, eq_comm]

theorem remove_eq_ok_iff : t.remove path = .ok t' ↔
    ∃ loc, t.namedPlace path = .ok loc ∧ t.refusals loc .remove = none ∧ t' = t.erase loc := by
  cases place : t.namedPlace path with
  | error cause => simp [remove, place, bind, Except.bind]
  | ok loc =>
    cases refused : t.refusals loc .remove <;>
      simp [remove, permit, place, refused, bind, Except.bind, eq_comm]

end FileTree
end Expunge
