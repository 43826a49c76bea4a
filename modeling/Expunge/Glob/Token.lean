import Expunge.Glob.Lexeme
import Expunge.Glob.Regex

/-!
# The parts of a glob

A glob is a sequence of parts: characters, wild cards, classes, groups, and the ways to leave out
directories. Each part stands for a regular expression on the bytes of a path.
-/

namespace Expunge.Glob
set_option autoImplicit false

/-- A part of a glob. -/
inductive Token
  | literal (c : Char)
  | anyByte
  | star
  /-- Any directories at the start: `**/`. -/
  | leadingDirectories
  /-- Everything below: `/**` at the end. -/
  | everythingBelow
  /-- Any directories between two names: `/**/`. -/
  | innerDirectories
  | charClass (negated : Bool) (ranges : List (Char × Char))
  /-- A group, as the expression for its alternatives. -/
  | group (r : Regex)
  deriving DecidableEq, Repr

/-- The byte of the separator. -/
def separator : UInt8 := 47

/-- The byte ranges for a range of characters: a character of several bytes stands for each of
them, and the range runs from the last byte of its low end to the first byte of its high end. -/
def byteRanges (r : Char × Char) : List (UInt8 × UInt8) :=
  let low := String.utf8EncodeChar r.1
  let high := String.utf8EncodeChar r.2
  if r.1 = r.2 then low.map fun b => (b, b)
  else (low.dropLast.map fun b => (b, b)) ++ [(low.getLastD 0, high.headD 0)] ++
    (high.tail.map fun b => (b, b))

/-- The bytes that a wild card matches. -/
def Dialect.wild (d : Dialect) : ByteSet :=
  if d.keepsSeparators then ⟨true, [(separator, separator)]⟩ else .all

/-- The expression for a part of a glob. -/
def Token.regex (d : Dialect) : Token → Regex
  | literal c => .bytes (String.utf8EncodeChar c)
  | anyByte => .byte d.wild
  | star => .many d.wild
  | leadingDirectories => .group (.either (.optional separator) directories)
  | everythingBelow => .append slash (.many .all)
  | innerDirectories => .group (.either slash (.append slash directories))
  | charClass negated ranges => .byte ⟨negated, ranges.flatMap byteRanges⟩
  | group r => r
where
  /-- The separator. -/
  slash : Regex := .literal separator
  /-- Anything that ends in a separator. -/
  directories : Regex := .append (.many .all) slash

/-- The expression for a sequence of parts. -/
def regexOf (d : Dialect) (ts : List Token) : Regex := .concat (ts.map (Token.regex d))

/-- A group: empty alternatives are dropped, and a group without others is empty. -/
def Token.ofBranches (d : Dialect) (branches : List (List Token)) : Token :=
  match (branches.map (regexOf d)).filter (· ≠ .empty) with
  | [] => .group .empty
  | rs => .group (.group (.oneOf rs))

/-- The expression for a whole glob; two stars alone match everything. -/
def regexOfGlob (d : Dialect) (ts : List Token) : Regex :=
  if ts = [.leadingDirectories] then .many .all else regexOf d ts

end Expunge.Glob
