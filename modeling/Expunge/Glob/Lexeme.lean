import Expunge.Glob.Fault

/-!
# The signs of a glob

A glob is read in two steps. The first cuts it into signs: wild cards, braces, commas, classes,
escaped characters and characters that stand for themselves. What cannot be read becomes a sign
of its own, so that the second step meets the faults in their order.
-/

namespace Expunge.Glob
set_option autoImplicit false

/-- A sign of a glob. -/
inductive Lexeme
  | anyByte
  | star
  | openGroup
  | closeGroup
  | comma
  /-- A character that stands for itself. -/
  | plain (c : Char)
  /-- A character after a backslash. -/
  | escaped (c : Char)
  | charClass (negated : Bool) (ranges : List (Char × Char))
  /-- The glob cannot be read further. -/
  | broken (cause : Fault)
  deriving DecidableEq, Repr

/-- What the search for the end of a class finds. -/
inductive ClassScan
  | closed (ranges : List (Char × Char)) (rest : List Char)
  | unclosed
  | misordered (low high : Char)
  deriving DecidableEq, Repr

/-- Where the reading of a class stands. -/
inductive ClassPlace
  /-- Nothing was read: a bracket or a dash stands for itself. -/
  | start
  /-- A member was read. -/
  | member
  /-- A member and a dash were read. -/
  | range
  deriving DecidableEq, Repr

/-- Reads the members of a class up to its bracket; `seen` holds the members read so far, the
last one first. -/
def scanClass (place : ClassPlace) (seen : List (Char × Char)) : List Char → ClassScan
  | [] => .unclosed
  | c :: cs =>
    match place, seen with
    | .start, _ => scanClass .member ((c, c) :: seen) cs
    | .member, _ =>
      if c = ']' then .closed seen.reverse cs
      else if c = '-' then scanClass .range seen cs
      else scanClass .member ((c, c) :: seen) cs
    | .range, (low, high) :: older =>
      if c = ']' then .closed (('-', '-') :: (low, high) :: older).reverse cs
      else if c < low then .misordered low c
      else scanClass .member ((low, c) :: older) cs
    | .range, [] => .unclosed

/-- A class ends before the text does. -/
theorem length_of_scanClass_eq_closed {place : ClassPlace} {seen ranges : List (Char × Char)}
    {cs rest : List Char} (h : scanClass place seen cs = .closed ranges rest) :
    rest.length < cs.length := by
  fun_induction scanClass place seen cs <;> grind

/-- How a glob is read, and what its wild cards match. -/
structure Dialect where
  /-- `*` and `?` do not match a separator. -/
  keepsSeparators : Bool
  /-- A class without its closing bracket is a plain bracket. -/
  lenientClass : Bool
  deriving DecidableEq, Repr

/-- The signs of a glob; without `classes` a bracket stands for itself. -/
def lexemes (d : Dialect) (classes : Bool) : List Char → List Lexeme
  | [] => []
  | '?' :: cs => .anyByte :: lexemes d classes cs
  | '*' :: cs => .star :: lexemes d classes cs
  | '{' :: cs => .openGroup :: lexemes d classes cs
  | '}' :: cs => .closeGroup :: lexemes d classes cs
  | ',' :: cs => .comma :: lexemes d classes cs
  | ['\\'] => [.broken .danglingEscape]
  | '\\' :: c :: cs => .escaped c :: lexemes d classes cs
  | c :: cs =>
    if c = '[' ∧ classes then
      let negated := cs.head? = some '!' ∨ cs.head? = some '^'
      let body := if negated then cs.tail else cs
      match h : scanClass .start [] body with
      | .closed ranges rest =>
        have : rest.length < (c :: cs).length := by
          have := length_of_scanClass_eq_closed h
          have : body.length ≤ cs.length := by
            simp only [body]
            split <;> simp
          simp only [List.length_cons]
          omega
        .charClass negated ranges :: lexemes d classes rest
      | .misordered low high => [.broken (.invalidRange low high)]
      | .unclosed =>
        if d.lenientClass then .plain '[' :: lexemes d false cs else [.broken .unclosedClass]
    else .plain c :: lexemes d classes cs
termination_by cs => cs.length
decreasing_by all_goals grind

end Expunge.Glob
