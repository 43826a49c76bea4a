import Expunge.Glob.Regex

/-!
# The nesting of expressions

Expressions that are nested more than 250 deep are refused. A group, a repetition, a class, and a
sequence or a choice of several parts are each a level of their own; a sequence inside a sequence
is not, nor a choice inside a choice. A refusal may name the expression, so `Regex.text` writes it
down.
-/

namespace Expunge.Glob
set_option autoImplicit false

/-- The levels of a set of bytes: any byte has none, and a class has one for its brackets and one
for its members if there are several. -/
def ByteSet.depth (s : ByteSet) : Nat :=
  if s = .all then 0 else if s.ranges.length ≤ 1 then 1 else 2

/-- A byte as it is written outside ASCII: with two hexadecimal digits. -/
def hexByte (b : UInt8) : String :=
  "\\x" ++ String.ofList [Nat.digitChar (b.toNat / 16), Nat.digitChar (b.toNat % 16)]

/-- A byte as it is written: a character with a meaning of its own stands after a backslash. -/
def byteText (b : UInt8) : String :=
  if 128 ≤ b then hexByte b
  else
    let c := Char.ofNat b.toNat
    if "\\.+*?()|[]\x7b\x7d^$#&-~".toList.contains c then String.ofList ['\\', c] else c.toString

/-- A range of bytes as it is written in a class. -/
def rangeText (r : UInt8 × UInt8) : String :=
  if r.1 = r.2 then byteText r.1 else byteText r.1 ++ "-" ++ byteText r.2

/-- A set of bytes as it is written. -/
def ByteSet.text (s : ByteSet) : String :=
  if s = .all then "."
  else (if s.negated then "[^" else "[") ++ String.join (s.ranges.map rangeText) ++ "]"

namespace Regex

/-- A sequence. -/
def isSequence : Regex → Bool
  | append .. => true
  | _ => false

/-- A choice. -/
def isChoice : Regex → Bool
  | either .. => true
  | _ => false

/-- The number of levels of an expression. -/
def depth : Regex → Nat
  | empty | literal _ => 0
  | byte s => s.depth
  | many s => s.depth + 1
  | optional _ => 1
  | append r r' =>
    max (if r.isSequence then r.depth else r.depth + 1)
      (if r'.isSequence then r'.depth else r'.depth + 1)
  | either r r' =>
    max (if r.isChoice then r.depth else r.depth + 1)
      (if r'.isChoice then r'.depth else r'.depth + 1)
  | group r => r.depth + 1

/-- An expression as it is written. -/
def text : Regex → String
  | empty => ""
  | literal b => byteText b
  | byte s => s.text
  | many s => s.text ++ "*"
  | optional b => byteText b ++ "?"
  | append r r' => r.text ++ r'.text
  | either r r' => r.text ++ "|" ++ r'.text
  | group r => "(?:" ++ r.text ++ ")"

/-- The number of levels of an expression for whole texts: such an expression is a sequence, with
marks for the start and the end of the text. -/
def wholeDepth (r : Regex) : Nat := if r.isSequence then r.depth else r.depth + 1

/-- An expression for whole texts as it is written, bytes apart from characters. -/
def wholeText (r : Regex) : String := "(?-u)^" ++ r.text ++ "$"

/-- How deep an expression may be nested. -/
def maxNesting : Nat := 250

/-- The expression is nested too deep. -/
def isTooDeep (r : Regex) : Bool := decide (maxNesting < r.wholeDepth)

end Regex
end Expunge.Glob
