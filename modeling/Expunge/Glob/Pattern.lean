import Expunge.Glob.Approach
import Expunge.Glob.Assembly
import Expunge.Glob.Nesting

/-!
# Globs

A glob that was read is a regular expression on the bytes of a path, with the way it is tested.
The expressions of a list of globs are nested no deeper than `maxNesting`, or the list cannot be
used.
-/

namespace Expunge.Glob
set_option autoImplicit false

/-- A glob that was read. -/
structure Pattern where
  approach : Approach
  expression : Regex
  deriving DecidableEq, Repr

/-- Reads a glob. -/
def read (d : Dialect) (glob : List Char) : Except Fault Pattern :=
  (assemble d {} (lexemes d true glob)).map fun ts => ⟨.ofTokens d ts, regexOfGlob d ts⟩

/-- The path has a last name: it does not end in the name `..`. -/
def hasLastName (path : List UInt8) : Bool :=
  let up := [46, 46]
  path != up && !(separator :: up).isSuffixOf path

namespace Pattern

/-- The glob matches the path. -/
def accepts (p : Pattern) (path : List UInt8) : Bool :=
  (!p.approach.needsLastName || hasLastName path) && p.expression.accepts path

/-- The expression of a glob is nested too deep, and the glob is tested by its expression in the
given way. -/
def isTooDeep (approach : Approach) (p : Pattern) : Bool :=
  p.approach == approach && p.expression.isTooDeep

/-- What the nesting of a list of globs does not allow. Expressions that are tested after the
extension are looked at first, each on its own, and then those that are tested together. -/
def nestingFault? (ps : List Pattern) : Option NestingFault :=
  match ps.find? (isTooDeep .extensionFirst) with
  | some p => some (.expression p.expression.wholeText)
  | none => ((ps.filter (·.approach == .expression)).findIdx? (isTooDeep .expression)).map .place

/-- The globs, if their nesting allows to use them. -/
def checked (ps : List Pattern) : Except ListFault (List Pattern) :=
  match nestingFault? ps with
  | none => .ok ps
  | some cause => .error (.nested cause)

end Pattern
end Expunge.Glob
