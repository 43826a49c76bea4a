/-!
# TOML values

The values of a TOML document, and the rules by which keys and headers build its tables. A table
remembers how it came to be, because that decides who may still add to it: a table written in
braces is closed, a header may be given once, and dotted keys only extend tables without a header
of their own, which they then make theirs.
-/

namespace Expunge.Toml
set_option autoImplicit false

/-- How a table came to be. -/
inductive TableKind
  /-- Written in braces. -/
  | inline
  /-- Opened by a header of its own, or the document itself. -/
  | explicit
  /-- On the way to a table with a header. -/
  | implicit
  /-- Made or extended by a dotted key. -/
  | dotted
  deriving DecidableEq, Repr

/-- A value. A float is known by whether it is too large for double precision. -/
inductive Value
  | string (s : String)
  /-- An integer; a text that only looks like one has no number. -/
  | integer (number? : Option Int)
  | float (overflows : Bool)
  | boolean (b : Bool)
  | moment
  /-- An array; `ofTables` tells that headers in double brackets made it. -/
  | array (ofTables : Bool) (items : List Value)
  | table (kind : TableKind) (entries : List (String × Value))
  deriving Inhabited

/-- The entries of a table with a value put under a key, at the end if the key is new. -/
def putEntry (es : List (String × Value)) (key : String) (v : Value) : List (String × Value) :=
  if es.any (·.1 = key) then es.map fun e => if e.1 = key then (key, v) else e
  else es ++ [(key, v)]

/-- The entries of a table with a value under a key that has to be new. -/
def addNew? (es : List (String × Value)) (key : String) (v : Value) :
    Option (List (String × Value)) :=
  if es.any (·.1 = key) then none else some (es ++ [(key, v)])

namespace Value

/-- Changes the table at the end of a path of keys. Missing tables are made on the way, as
`dotted` says; an array of tables stands for its last table. A dotted key passes only tables that
have no header of their own, and makes them its own. -/
def update (dotted : Bool) (f : TableKind → List (String × Value) → Option Value) :
    List String → Value → Option Value
  | [], table kind es => f kind es
  | key :: path, table kind es =>
    match es.lookup key with
    | none => do
      let made := table (if dotted then TableKind.dotted else .implicit) []
      return table kind (putEntry es key (← update dotted f path made))
    | some (table .inline _) => none
    | some (table sub entries) =>
      if dotted && sub == .explicit then none
      else do
        let passed := table (if dotted then TableKind.dotted else sub) entries
        return table kind (putEntry es key (← update dotted f path passed))
    | some (array true items) => do
      let last ← items.getLast?
      let last ← update dotted f path last
      return table kind (putEntry es key (array true (items.dropLast ++ [last])))
    | some _ => none
  | _, _ => none

/-- Sets a key, given as the keys on the way and the last one, in a table. A dotted key cannot
add to the last table of an array. -/
def setKey (t : Value) (path : List String) (key : String) (v : Value) : Option Value :=
  t.update (!path.isEmpty) (fun kind es =>
    if !path.isEmpty && kind == .explicit then none else (addNew? es key v).map (table kind)) path

/-- Sets a key below a header. -/
def setBelow (root : Value) (header path : List String) (key : String) (v : Value) :
    Option Value :=
  root.update false (fun kind es => (table kind es).setKey path key v) header

/-- Opens a table by its header. -/
def openTable (root : Value) (path : List String) (key : String) : Option Value :=
  root.update false (fun kind es =>
    match es.lookup key with
    | none => some (table kind (putEntry es key (table .explicit [])))
    | some (table .implicit entries) =>
      some (table kind (putEntry es key (table .explicit entries)))
    | some _ => none) path

/-- Adds a table to an array of tables by its header. -/
def openItem (root : Value) (path : List String) (key : String) : Option Value :=
  root.update false (fun kind es =>
    match es.lookup key with
    | none => some (table kind (putEntry es key (array true [table .explicit []])))
    | some (array true items) =>
      some (table kind (putEntry es key (array true (items ++ [table .explicit []]))))
    | some _ => none) path

/-- A table in braces, when its keys are set. -/
def closeInline : Value → Value
  | table _ es => table .inline es
  | v => v

/-- An empty document. -/
def emptyDocument : Value := table .explicit []

end Value
end Expunge.Toml
