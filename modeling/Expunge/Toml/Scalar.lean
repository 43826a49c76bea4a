import Expunge.Toml.Quoted
import Expunge.Toml.Value

/-!
# TOML numbers, truth values and moments

The values that are written without marks. A text is told apart by its start: what follows the
first digits decides between an integer, a float and a moment. A date has to exist in the calendar
and a float has to be complete, but an integer with underscores is only checked around them: the
text may hold other signs, and then the value has no number.
-/

namespace Expunge.Toml
set_option autoImplicit false

/-- Underscores stand between digits only: each part between them starts with a digit, and ends
with one if it is longer than one character. -/
def isGrouped (isDigit : Char → Bool) (cs : List Char) : Bool :=
  match cs.splitOn '_' with
  | [] | [_] => true
  | first :: parts =>
    !first.isEmpty && parts.all (fun part => part.head?.any isDigit) &&
      (first :: parts).dropLast.all fun part => part.length = 1 || part.getLast?.any isDigit

/-- The number with the given digits. -/
def ofDigits (base : Nat) (cs : List Char) : Nat :=
  cs.foldl (fun n c => n * base + (hexDigit? c).getD 0) 0

/-- The number with the given digits, if there is one and all are below the base. -/
def number? (base : Nat) (cs : List Char) : Option Nat :=
  if !cs.isEmpty && cs.all (fun c => (hexDigit? c).any (· < base)) then some (ofDigits base cs)
  else none

/-- A sign, and what follows it. -/
def signed : List Char → Bool × List Char
  | '-' :: cs => (true, cs)
  | '+' :: cs => (false, cs)
  | cs => (false, cs)

/-- A decimal number that may have a sign. -/
def decimal? (cs : List Char) : Option Int :=
  (number? 10 (signed cs).2).map fun n => if (signed cs).1 then -(n : Int) else n

/-- A text without its underscores. -/
def ungrouped (cs : List Char) : List Char := cs.filter (· ≠ '_')

/-- A zero stands in front of further digits. -/
def hasLeadingZero (cs : List Char) : Bool := cs.head? = some '0' && 1 < cs.length

/-- A decimal integer, after the look at its first digits. -/
def integer? (cs : List Char) : Option Value :=
  let value := (signed cs).2
  if hasLeadingZero value || !isGrouped (fun c => (hexDigit? c).isSome) value then none
  else some (.integer (decimal? (ungrouped cs)))

/-- An integer in another base, without its mark. -/
def inBase? (base : Nat) (cs : List Char) : Option Value :=
  if cs.all (fun c => c = '_' || (hexDigit? c).any (· < base)) &&
      isGrouped (fun c => (hexDigit? c).isSome) cs then
    some (.integer ((number? base (ungrouped cs)).map Int.ofNat))
  else none

/-- The number `m · 10 ^ e` rounds to infinity in double precision: it is not below the middle
between the largest double and the next power of two. -/
def overflows (m : Nat) (e : Int) : Bool :=
  let digits := (Nat.toDigits 10 m).length
  if m = 0 || e + digits < 300 then false
  else if 320 < e + digits then true
  else
    let limit := Nat.pow 2 1024 - Nat.pow 2 970
    if 0 ≤ e then decide (limit ≤ m * Nat.pow 10 e.toNat)
    else decide (limit * Nat.pow 10 (-e).toNat ≤ m)

/-- A character of a part of a float. -/
def isFloatDigit (c : Char) : Bool := c.isDigit || c = '_'

/-- A part of a float with a digit, and what follows it. -/
def digits? (cs : List Char) : Option (List Char × List Char) :=
  let digits := ungrouped (cs.takeWhile isFloatDigit)
  if digits.isEmpty then none else some (digits, cs.dropWhile isFloatDigit)

/-- The fraction of a float, empty if there is no point, and what follows it. -/
def fraction? : List Char → Option (List Char × List Char)
  | '.' :: cs => digits? cs
  | cs => some ([], cs)

/-- The exponent at the end of a float, zero if there is none. -/
def exponent? : List Char → Option Int
  | [] => some 0
  | c :: cs =>
    if c = 'e' || c = 'E' then do
      let (digits, []) ← digits? (signed cs).2 | none
      some (if (signed cs).1 then -(ofDigits 10 digits : Int) else (ofDigits 10 digits : Int))
    else none

/-- A float; the answer tells whether it is too large for double precision. -/
def float? (cs : List Char) : Option Bool := do
  let value := (signed cs).2
  let (whole, rest) ← digits? value
  let (fraction, rest) ← fraction? rest
  let e ← exponent? rest
  if hasLeadingZero (value.takeWhile isFloatDigit) || !isGrouped Char.isDigit value then none
  else some (overflows (ofDigits 10 (whole ++ fraction)) (e - fraction.length))

/-- Two digits as a number below a limit. -/
def pair? (limit : Nat) (a b : Char) : Option Nat :=
  if a.isDigit && b.isDigit && ofDigits 10 [a, b] < limit then some (ofDigits 10 [a, b]) else none

/-- The length of a month. -/
def daysIn (year month : Nat) : Nat :=
  if month = 2 then if year % 4 = 0 && (year % 100 != 0 || year % 400 = 0) then 29 else 28
  else if month ∈ [4, 6, 9, 11] then 30 else 31

/-- A date of the calendar. -/
def isDate : List Char → Bool
  | [y1, y2, y3, y4, '-', m1, m2, '-', d1, d2] =>
    [y1, y2, y3, y4].all Char.isDigit &&
      match pair? 13 m1 m2, pair? 32 d1 d2 with
      | some month, some day =>
        decide (0 < month) && decide (0 < day) && decide (day ≤ daysIn (ofDigits 10 [y1, y2, y3, y4]) month)
      | _, _ => false
  | _ => false

/-- A time of day; seconds may be left out, and may have a fraction. -/
def isTime : List Char → Bool
  | h1 :: h2 :: ':' :: m1 :: m2 :: rest =>
    (pair? 24 h1 h2).isSome && (pair? 60 m1 m2).isSome &&
      match rest with
      | [] => true
      | ':' :: s1 :: s2 :: fraction =>
        (pair? 61 s1 s2).isSome &&
          match fraction with
          | [] => true
          | '.' :: c :: cs => (c :: cs).all Char.isDigit
          | _ => false
      | _ => false
  | _ => false

/-- The offset of a time from universal time. -/
def isOffset : List Char → Bool
  | ['Z'] | ['z'] => true
  | [sign, h1, h2, ':', m1, m2] =>
    (sign = '+' || sign = '-') && (pair? 24 h1 h2).isSome && (pair? 60 m1 m2).isSome
  | _ => false

/-- A time of day with an offset or without one. -/
def isTimeWithOffset (cs : List Char) : Bool :=
  let inTime := fun c => c.isDigit || c = ':' || c = '.'
  isTime (cs.takeWhile inTime) &&
    ((cs.dropWhile inTime).isEmpty || isOffset (cs.dropWhile inTime))

/-- A date, a time, or both with a mark between them. -/
def isMoment (cs : List Char) : Bool :=
  isTime cs || isDate cs ||
    match cs.drop 10 with
    | mark :: time =>
      isDate (cs.take 10) && (mark = 'T' || mark = 't' || mark = ' ') && isTimeWithOffset time
    | [] => false

/-- A decimal number or a moment: what follows the first digits tells which. -/
def decimalOrMoment? (cs : List Char) : Option Value :=
  let value := (signed cs).2
  match value.dropWhile Char.isDigit with
  | [] => if value.isEmpty then none else integer? cs
  | c :: rest =>
    if c = '-' || c = ':' then if isMoment cs then some .moment else none
    else if (c :: rest).any (fun c => c = '.' || c = 'e' || c = 'E') then (float? cs).map .float
    else if c = '_' then integer? cs
    else none

/-- The value that is written without marks. -/
def scalar? : List Char → Option Value
  | '0' :: 'x' :: cs => inBase? 16 cs
  | '0' :: 'o' :: cs => inBase? 8 cs
  | '0' :: 'b' :: cs => inBase? 2 cs
  | cs =>
    let value := String.ofList (signed cs).2
    if cs = "true".toList then some (.boolean true)
    else if cs = "false".toList then some (.boolean false)
    else if value = "inf" || value = "nan" then some (.float false)
    else decimalOrMoment? cs

/-- A character that ends a value without marks. -/
def endsScalar (c : Char) : Bool :=
  c ∈ [' ', '\t', '\n', '\r', '#', ',', '=', '[', ']', '{', '}']

/-- The text of a value without marks at the start, and what follows: a space between a date and
a digit belongs to it. -/
def scalarText (cs : List Char) : List Char × List Char :=
  let first := cs.takeWhile (!endsScalar ·)
  match cs.dropWhile (!endsScalar ·) with
  | ' ' :: d :: rest =>
    if isDate first && d.isDigit then
      (first ++ ' ' :: (d :: rest).takeWhile (!endsScalar ·), (d :: rest).dropWhile (!endsScalar ·))
    else (first, ' ' :: d :: rest)
  | rest => (first, rest)

end Expunge.Toml
