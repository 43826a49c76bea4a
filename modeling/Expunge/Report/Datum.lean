/-!
# JSON text

The JSON values that a report is made of, and their indented text. Every character of a string is
written as itself, but for quotes, backslashes and the control characters.
-/

namespace Expunge
set_option autoImplicit false

/-- A JSON value without null and fractions. -/
inductive Datum
  | text (s : String)
  | number (n : Nat)
  | flag (b : Bool)
  | list (items : List Datum)
  | record (fields : List (String × Datum))
  deriving Inhabited

namespace Datum

/-- A character inside quotes. -/
def quoteChar (c : Char) : List Char :=
  if c = '"' then ['\\', '"']
  else if c = '\\' then ['\\', '\\']
  else if c = '\x08' then ['\\', 'b']
  else if c = '\x0C' then ['\\', 'f']
  else if c = '\n' then ['\\', 'n']
  else if c = '\r' then ['\\', 'r']
  else if c = '\t' then ['\\', 't']
  else if c.toNat < 0x20 then
    ['\\', 'u', '0', '0', Nat.digitChar (c.toNat / 16), Nat.digitChar (c.toNat % 16)]
  else [c]

/-- A text in quotes. -/
def quote (cs : List Char) : List Char := '"' :: cs.flatMap quoteChar ++ ['"']

/-- The start of a line at a depth of nesting. -/
def newline (depth : Nat) : List Char := '\n' :: List.replicate (2 * depth) ' '

mutual

/-- The text of a value at a depth of nesting. -/
def render (depth : Nat) : Datum → List Char
  | text s => quote s.toList
  | number n => Nat.toDigits 10 n
  | flag b => if b then "true".toList else "false".toList
  | list [] => "[]".toList
  | list (d :: ds) => '[' :: (newline (depth + 1) ++ render (depth + 1) d ++ renderItems depth ds)
  | record [] => "\x7b\x7d".toList
  | record ((key, d) :: fs) =>
    '{' :: (newline (depth + 1) ++ quote key.toList ++ ": ".toList ++ render (depth + 1) d ++
      renderFields depth fs)

/-- The items of a list after its first, and its end. -/
def renderItems (depth : Nat) : List Datum → List Char
  | [] => newline depth ++ [']']
  | d :: ds => ',' :: (newline (depth + 1) ++ render (depth + 1) d ++ renderItems depth ds)

/-- The fields of a record after its first, and its end. -/
def renderFields (depth : Nat) : List (String × Datum) → List Char
  | [] => newline depth ++ ['}']
  | (key, d) :: fs =>
    ',' :: (newline (depth + 1) ++ quote key.toList ++ ": ".toList ++ render (depth + 1) d ++
      renderFields depth fs)

end

/-- The text of a value. -/
def toText (d : Datum) : String := String.ofList (d.render 0)

end Datum
end Expunge
