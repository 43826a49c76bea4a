import Expunge.Glob.Token

/-!
# How a glob is tested

Most globs need no regular expression: they fix the last name of a path, its extension, the path
itself, its start or its end. The answer is that of the expression, but for paths that end in the
name `..`: they have no last name, and a glob that is tested by the last name does not match them.
-/

namespace Expunge.Glob
set_option autoImplicit false

/-- How a glob is tested. -/
inductive Approach
  /-- The last name or its extension is compared. -/
  | lastName
  /-- The path, its start or its end is compared. -/
  | path
  /-- The extension of the last name is compared, then the expression is tested. -/
  | extensionFirst
  /-- The expression is tested. -/
  | expression
  deriving DecidableEq, Repr

/-- The character that a part stands for. -/
def Token.char? : Token → Option Char
  | literal c => some c
  | _ => none

/-- The text that parts spell, if all are characters. -/
def spelled? (ts : List Token) : Option (List Char) := ts.mapM Token.char?

/-- The parts name the last name of a path, in any directory. -/
def fixesLastName : List Token → Bool
  | .leadingDirectories :: ts => (spelled? ts).any fun cs => !cs.isEmpty && !cs.contains '/'
  | _ => false

/-- The parts name the extension of the last name, in any directory. -/
def fixesExtension (d : Dialect) : List Token → Bool
  | .leadingDirectories :: .star :: .literal '.' :: ts => isExtension ts
  | .star :: .literal '.' :: ts => !d.keepsSeparators && isExtension ts
  | _ => false
where
  /-- The parts spell an extension. -/
  isExtension (ts : List Token) : Bool :=
    (spelled? ts).any fun cs => !cs.contains '.' && !cs.contains '/'

/-- The parts spell the path. -/
def fixesPath (ts : List Token) : Bool := (spelled? ts).any (!·.isEmpty)

/-- The parts spell the start of the path. -/
def fixesStart (d : Dialect) (ts : List Token) : Bool :=
  match ts.getLast? with
  | some .star => !d.keepsSeparators && fixesPath ts.dropLast
  | some .everythingBelow => (spelled? ts.dropLast).isSome
  | _ => false

/-- The parts spell the end of the path. -/
def fixesEnd (d : Dialect) : List Token → Bool
  | .leadingDirectories :: .star :: ts | .star :: ts =>
    !d.keepsSeparators && (spelled? ts).any fun cs => !cs.isEmpty && cs != ['/']
  | .leadingDirectories :: ts => fixesPath ts
  | _ => false

/-- The parts end in a point and an extension. -/
def requiresExtension (ts : List Token) : Bool :=
  match ts.reverse.dropWhile fun t => t.char?.any fun c => c != '.' && c != '/' with
  | .literal '.' :: _ => true
  | _ => false

namespace Approach

/-- How a glob with the given parts is tested. -/
def ofTokens (d : Dialect) (ts : List Token) : Approach :=
  if fixesLastName ts || fixesExtension d ts then lastName
  else if fixesPath ts || fixesStart d ts || fixesEnd d ts then path
  else if requiresExtension ts then extensionFirst
  else expression

/-- The test looks at the last name. -/
def needsLastName : Approach → Bool
  | lastName | extensionFirst => true
  | path | expression => false

end Approach
end Expunge.Glob
