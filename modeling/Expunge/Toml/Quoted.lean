/-!
# TOML strings

The four ways to write a string: in quotes with escapes or in apostrophes as it stands, on one
line or between three of them on several. Each reader takes the text after the opening marks and
gives the string and what follows it.
-/

namespace Expunge.Toml
set_option autoImplicit false

/-- A control character that may not stand in a document: any but the tab. -/
def isControl (c : Char) : Bool := (c.toNat < 0x20 && c != '\t') || c.toNat == 0x7F

/-- The value of a hexadecimal digit. -/
def hexDigit? (c : Char) : Option Nat :=
  if c.isDigit then some (c.toNat - '0'.toNat)
  else if 'a' ≤ c && c ≤ 'f' then some (c.toNat - 'a'.toNat + 10)
  else if 'A' ≤ c && c ≤ 'F' then some (c.toNat - 'A'.toNat + 10)
  else none

/-- The character whose code point is written by the first `count` characters. -/
def codePoint? (count : Nat) (cs : List Char) : Option Char := do
  let digits ← (cs.take count).mapM hexDigit?
  let n := digits.foldl (fun n d => n * 16 + d) 0
  if digits.length = count ∧ n.isValidChar then some (Char.ofNat n) else none

/-- The character that an escape stands for, and the length of the escape after its backslash. -/
def escape? : List Char → Option (Char × Nat)
  | 'b' :: _ => some ('\x08', 1)
  | 't' :: _ => some ('\t', 1)
  | 'n' :: _ => some ('\n', 1)
  | 'f' :: _ => some ('\x0C', 1)
  | 'r' :: _ => some ('\r', 1)
  | 'e' :: _ => some ('\x1B', 1)
  | '"' :: _ => some ('"', 1)
  | '\\' :: _ => some ('\\', 1)
  | 'x' :: cs => (codePoint? 2 cs).map (·, 3)
  | 'u' :: cs => (codePoint? 4 cs).map (·, 5)
  | 'U' :: cs => (codePoint? 8 cs).map (·, 9)
  | _ => none

/-- A string in quotes on one line; `seen` holds its characters, the last one first. -/
def quoted (seen : List Char) : List Char → Option (List Char × List Char)
  | [] => none
  | '"' :: cs => some (seen.reverse, cs)
  | '\\' :: cs =>
    match escape? cs with
    | none => none
    | some (c, n) => quoted (c :: seen) (cs.drop n)
  | c :: cs => if isControl c then none else quoted (c :: seen) cs
termination_by cs => cs.length

/-- A string in apostrophes on one line. -/
def plainQuoted (seen : List Char) : List Char → Option (List Char × List Char)
  | [] => none
  | '\'' :: cs => some (seen.reverse, cs)
  | c :: cs => if isControl c then none else plainQuoted (c :: seen) cs

/-- Drops blanks and line ends. -/
def dropBlankLines : List Char → List Char
  | ' ' :: cs | '\t' :: cs | '\n' :: cs | '\r' :: '\n' :: cs => dropBlankLines cs
  | cs => cs

theorem length_dropBlankLines_le (cs : List Char) : (dropBlankLines cs).length ≤ cs.length := by
  fun_induction dropBlankLines cs <;> simp_all <;> omega

/-- A backslash before this text joins its line with the next text. -/
def joinsLines (cs : List Char) : Bool :=
  match cs.dropWhile fun c => c = ' ' ∨ c = '\t' with
  | '\n' :: _ | '\r' :: '\n' :: _ => true
  | _ => false

/-- What follows three closing marks: up to two more belong to the string. -/
def closeLong (mark : Char) (seen cs : List Char) : List Char × List Char :=
  let more := (cs.takeWhile (· = mark)).take 2
  ((more ++ seen).reverse, cs.drop more.length)

/-- A string between three quotes. -/
def longQuoted (seen : List Char) : List Char → Option (List Char × List Char)
  | [] => none
  | '"' :: '"' :: '"' :: cs => some (closeLong '"' seen cs)
  | '\\' :: cs =>
    if joinsLines cs then longQuoted seen (dropBlankLines cs)
    else
      match escape? cs with
      | none => none
      | some (c, n) => longQuoted (c :: seen) (cs.drop n)
  | '\r' :: '\n' :: cs => longQuoted ('\n' :: '\r' :: seen) cs
  | c :: cs => if isControl c && c != '\n' then none else longQuoted (c :: seen) cs
termination_by cs => cs.length
decreasing_by
  · have := length_dropBlankLines_le cs
    simp only [List.length_cons]
    omega
  all_goals simp only [List.length_cons, List.length_drop]; omega

/-- A string between three apostrophes. -/
def longPlainQuoted (seen : List Char) : List Char → Option (List Char × List Char)
  | [] => none
  | '\'' :: '\'' :: '\'' :: cs => some (closeLong '\'' seen cs)
  | '\r' :: '\n' :: cs => longPlainQuoted ('\n' :: '\r' :: seen) cs
  | c :: cs => if isControl c && c != '\n' then none else longPlainQuoted (c :: seen) cs

/-- Drops a line end. -/
def dropLineEnd : List Char → List Char
  | '\n' :: cs | '\r' :: '\n' :: cs => cs
  | cs => cs

/-- A string of any of the four kinds, with its opening marks. -/
def string? : List Char → Option (String × List Char)
  | '"' :: '"' :: '"' :: cs => (longQuoted [] (dropLineEnd cs)).map fun (s, r) => (.ofList s, r)
  | '"' :: cs => (quoted [] cs).map fun (s, r) => (.ofList s, r)
  | '\'' :: '\'' :: '\'' :: cs =>
    (longPlainQuoted [] (dropLineEnd cs)).map fun (s, r) => (.ofList s, r)
  | '\'' :: cs => (plainQuoted [] cs).map fun (s, r) => (.ofList s, r)
  | _ => none

end Expunge.Toml
