/-!
# Regular expressions on bytes

The expressions that globs denote: bytes, repeated bytes, sequence and choice. `Regex.reach` moves
a set of positions of the text through an expression, so a test takes one pass over the text for
each part of the expression, whatever the expression. A set of positions is a list of marks: one
for the place before each byte and one for the end.
-/

namespace Expunge.Glob
set_option autoImplicit false

/-- A set of bytes: those in one of the ranges, or those in none. -/
structure ByteSet where
  negated : Bool
  ranges : List (UInt8 × UInt8)
  deriving DecidableEq, Repr

namespace ByteSet

/-- The byte is in the set. -/
def contains (s : ByteSet) (b : UInt8) : Bool :=
  s.ranges.any (fun r => r.1 ≤ b && b ≤ r.2) != s.negated

/-- Every byte. -/
def all : ByteSet := ⟨true, []⟩

/-- One byte. -/
def single (b : UInt8) : ByteSet := ⟨false, [(b, b)]⟩

@[simp] theorem contains_all (b : UInt8) : all.contains b = true := rfl

@[simp] theorem contains_single {a b : UInt8} : (single a).contains b = true ↔ b = a := by
  simp [contains, single, ← UInt8.toNat_inj, UInt8.le_iff_toNat_le]
  omega

end ByteSet

/-- A regular expression. A byte and the set of that byte match the same texts but are written
differently, and so are an expression and a group of it. -/
inductive Regex
  | empty
  | literal (b : UInt8)
  | byte (s : ByteSet)
  /-- Any number of bytes of a set. -/
  | many (s : ByteSet)
  /-- A byte or nothing. -/
  | optional (b : UInt8)
  | append (first second : Regex)
  | either (left right : Regex)
  | group (r : Regex)
  deriving DecidableEq, Repr

namespace Regex

/-- One expression after the other; the empty one adds nothing. -/
def concat : List Regex → Regex
  | [] => empty
  | r :: rs =>
    let rest := concat rs
    if r = empty then rest else if rest = empty then r else append r rest

/-- A text of the given bytes. -/
def bytes (bs : List UInt8) : Regex := concat (bs.map literal)

/-- One of the expressions; the empty expression if there is none. -/
def oneOf : List Regex → Regex
  | [] => empty
  | [r] => r
  | r :: rs => either r (oneOf rs)

/-- The marks after one byte of the set. -/
def reachByte (s : ByteSet) (text : List UInt8) (marks : List Bool) : List Bool :=
  false :: List.zipWith (fun m b => m && s.contains b) marks text

/-- The marks after any number of bytes of the set; `carried` tells that the place before is
reached and the byte since is in the set. -/
def reachMany (s : ByteSet) (carried : Bool) : List UInt8 → List Bool → List Bool
  | b :: text, m :: marks =>
    (m || carried) :: reachMany s ((m || carried) && s.contains b) text marks
  | [], m :: _ => [m || carried]
  | _, [] => []

/-- The places of the text where the expression can end, if it starts at a marked place. -/
def reach (text : List UInt8) : Regex → List Bool → List Bool
  | empty, marks => marks
  | literal b, marks => reachByte (.single b) text marks
  | byte s, marks => reachByte s text marks
  | many s, marks => reachMany s false text marks
  | optional b, marks => List.zipWith (· || ·) marks (reachByte (.single b) text marks)
  | append r r', marks => reach text r' (reach text r marks)
  | either r r', marks => List.zipWith (· || ·) (reach text r marks) (reach text r' marks)
  | group r, marks => reach text r marks

/-- The expression is matched by the whole text. -/
def accepts (r : Regex) (text : List UInt8) : Bool :=
  (reach text r (true :: text.map fun _ => false)).getLastD false

end Regex
end Expunge.Glob
