import Expunge.Toml.Scalar

/-!
# TOML documents

The reader of whole documents: keys, values with nested arrays and tables, headers, comments. A
document is refused as a whole or read as one table. Arrays and tables in braces may be nested 80
deep, and a key may have 80 parts.
-/

namespace Expunge.Toml
set_option autoImplicit false

/-- Drops spaces and tabs. -/
def dropBlanks (cs : List Char) : List Char := cs.dropWhile fun c => c = ' ' || c = '\t'

/-- What follows a comment, from the end of its line on. -/
def afterComment? : List Char → Option (List Char)
  | [] => some []
  | '\n' :: cs => some ('\n' :: cs)
  | '\r' :: '\n' :: cs => some ('\r' :: '\n' :: cs)
  | c :: cs => if isControl c then none else afterComment? cs

theorem length_afterComment?_le {cs rest : List Char} (h : afterComment? cs = some rest) :
    rest.length ≤ cs.length := by
  fun_induction afterComment? cs <;> grind

/-- What follows blanks, line ends and comments. -/
def afterGap? : List Char → Option (List Char)
  | ' ' :: cs | '\t' :: cs | '\n' :: cs | '\r' :: '\n' :: cs => afterGap? cs
  | '#' :: cs =>
    match h : afterComment? cs with
    | none => none
    | some rest =>
      have := length_afterComment?_le h
      afterGap? rest
  | cs => some cs
termination_by cs => cs.length
decreasing_by all_goals simp only [List.length_cons]; omega

/-- What follows the end of a line, blanks and a comment before it. -/
def afterLine? (cs : List Char) : Option (List Char) := do
  let cs := dropBlanks cs
  let cs ← if cs.head? = some '#' then afterComment? cs.tail else some cs
  match cs with
  | [] => some []
  | '\n' :: rest | '\r' :: '\n' :: rest => some rest
  | _ => none

/-- A character of a key without marks. -/
def isBare (c : Char) : Bool := c.isAlphanum || c = '_' || c = '-'

/-- One part of a key. -/
def keyPart? : List Char → Option (String × List Char)
  | '"' :: cs => (quoted [] cs).map fun (s, r) => (.ofList s, r)
  | '\'' :: cs => (plainQuoted [] cs).map fun (s, r) => (.ofList s, r)
  | cs =>
    if (cs.takeWhile isBare).isEmpty then none
    else some (.ofList (cs.takeWhile isBare), cs.dropWhile isBare)

/-- The parts of a key, and what follows it and the blanks after it. -/
def keyParts? (cs : List Char) : Option (List String × List Char) :=
  match keyPart? cs with
  | none => none
  | some (k, rest) =>
    match dropBlanks rest with
    | '.' :: rest =>
      if (dropBlanks rest).length < cs.length then
        (keyParts? (dropBlanks rest)).map fun (ks, rest) => (k :: ks, rest)
      else none
    | rest => some ([k], rest)
termination_by cs.length

/-- How deep arrays and tables in braces may be nested, and how many parts a key may have. -/
def maxDepth : Nat := 80

/-- A key that does not reach too deep, and what follows it. -/
def key? (cs : List Char) : Option (List String × List Char) :=
  (keyParts? cs).filter fun (ks, _) => ks.length ≤ maxDepth

mutual

/-- A value, with `depth` levels of nesting left. -/
def value? (depth : Nat) (cs : List Char) : Option (Value × List Char) :=
  match depth, cs with
  | depth + 1, '[' :: cs => items? depth [] cs
  | depth + 1, '{' :: cs => entries? depth (.table .explicit []) cs
  | _, cs =>
    if cs.head? = some '"' || cs.head? = some '\'' then
      (string? cs).map fun (s, rest) => (.string s, rest)
    else (scalar? (scalarText cs).1).map fun v => (v, (scalarText cs).2)
termination_by (depth, 0, 0)

/-- The items of an array after `seen`, up to its bracket. -/
def items? (depth : Nat) (seen : List Value) (cs : List Char) : Option (Value × List Char) := do
  match ← afterGap? cs with
  | ']' :: rest => some (.array false seen.reverse, rest)
  | start =>
    let (v, rest) ← value? depth start
    match ← afterGap? rest with
    | ']' :: rest => some (.array false (v :: seen).reverse, rest)
    | ',' :: rest => if rest.length < cs.length then items? depth (v :: seen) rest else none
    | _ => none
termination_by (depth, 1, cs.length)

/-- The entries of a table in braces after those of `t`, up to its brace. -/
def entries? (depth : Nat) (t : Value) (cs : List Char) : Option (Value × List Char) := do
  match ← afterGap? cs with
  | '}' :: rest => some (t.closeInline, rest)
  | start =>
    let (ks, rest) ← key? start
    let key ← ks.getLast?
    match ← afterGap? rest with
    | '=' :: rest =>
      let (v, rest) ← value? depth (← afterGap? rest)
      let t ← t.setKey ks.dropLast key v
      match ← afterGap? rest with
      | '}' :: rest => some (t.closeInline, rest)
      | ',' :: rest => if rest.length < cs.length then entries? depth t rest else none
      | _ => none
    | _ => none
termination_by (depth, 1, cs.length)

end

/-- A header and the end of its line: the array mark, the key and what follows. -/
def header? : List Char → Option (Bool × List String × List Char)
  | '[' :: '[' :: cs => do
    let (ks, rest) ← key? (dropBlanks cs)
    match rest with
    | ']' :: ']' :: rest => some (true, ks, ← afterLine? rest)
    | _ => none
  | '[' :: cs => do
    let (ks, rest) ← key? (dropBlanks cs)
    match rest with
    | ']' :: rest => some (false, ks, ← afterLine? rest)
    | _ => none
  | _ => none

/-- A key with its value and the end of their line. -/
def assignment? (cs : List Char) : Option (List String × Value × List Char) := do
  let (ks, rest) ← key? cs
  match rest with
  | '=' :: rest =>
    let (v, rest) ← value? maxDepth (dropBlanks rest)
    some (ks, v, ← afterLine? rest)
  | _ => none

/-- Reads the lines of a document below the last header. -/
def statements? (root : Value) (header : List String) (cs : List Char) : Option Value := do
  match ← afterGap? cs with
  | [] => some root
  | '[' :: start =>
    let (isItem, ks, rest) ← header? ('[' :: start)
    let key ← ks.getLast?
    let root ← if isItem then root.openItem ks.dropLast key else root.openTable ks.dropLast key
    if rest.length < cs.length then statements? root ks rest else none
  | start =>
    let (ks, v, rest) ← assignment? start
    let key ← ks.getLast?
    let root ← root.setBelow header ks.dropLast key v
    if rest.length < cs.length then statements? root header rest else none
termination_by cs.length

/-- Reads a document; a byte order mark at its start is skipped. -/
def parse (text : String) : Option Value :=
  statements? .emptyDocument []
    (if text.toList.head? = some '\uFEFF' then text.toList.tail else text.toList)

end Expunge.Toml
