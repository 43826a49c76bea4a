/-!
# Line differences

A difference between two texts as chunks of kept, deleted and inserted lines. Read with the
deleted lines a difference spells the old text, with the inserted ones the new text.
-/

namespace Expunge.Diff
set_option autoImplicit false

/-- A line with the characters that end it. -/
abbrev TextLine := List Char

/-- The lines of a text, each with its end: a line feed, a carriage return, or both. -/
def textLines : List Char → List TextLine
  | [] => []
  | '\r' :: '\n' :: cs => ['\r', '\n'] :: textLines cs
  | c :: cs =>
    if c = '\n' ∨ c = '\r' then [c] :: textLines cs
    else
      match textLines cs with
      | [] => [[c]]
      | l :: ls => (c :: l) :: ls

/-- A part of a difference. -/
inductive Chunk
  | keep (lines : List TextLine)
  | delete (lines : List TextLine)
  | insert (lines : List TextLine)
  deriving DecidableEq, Repr

namespace Chunk

/-- The lines of the chunk in the old text. -/
def old : Chunk → List TextLine
  | keep ls | delete ls => ls
  | insert _ => []

/-- The lines of the chunk in the new text. -/
def new : Chunk → List TextLine
  | keep ls | insert ls => ls
  | delete _ => []

/-- How many lines a chunk has, and one for the chunk. -/
def weight : Chunk → Nat
  | keep ls | delete ls | insert ls => ls.length + 1

/-- The chunk inserts lines. -/
def isInsert : Chunk → Bool
  | insert _ => true
  | keep _ | delete _ => false

end Chunk

/-- The number of lines at the start that two lists share. -/
def commonPrefix : List TextLine → List TextLine → Nat
  | a :: as, b :: bs => if a = b then commonPrefix as bs + 1 else 0
  | _, _ => 0

/-- The number of lines at the end that two lists share. -/
def commonSuffix (as bs : List TextLine) : Nat := commonPrefix as.reverse bs.reverse

end Expunge.Diff
