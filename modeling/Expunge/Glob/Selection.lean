import Expunge.Glob.Pattern

/-!
# Include patterns

The globs that select files. One of them has to match the whole path, and their wild cards match
separators.
-/

namespace Expunge.Glob
set_option autoImplicit false

/-- The dialect of include patterns. -/
def pathDialect : Dialect := ⟨false, false⟩

/-- Patterns of which one has to match a path. -/
structure Selection where
  patterns : List Pattern

namespace Selection

/-- Reads patterns; the first one that cannot be read is refused. -/
def readPatterns : List String → Except ListFault (List Pattern)
  | [] => .ok []
  | p :: ps =>
    match read pathDialect p.toList with
    | .error cause => .error (.refused p ⟨p, cause⟩)
    | .ok pattern => (readPatterns ps).map (pattern :: ·)

/-- Reads a list of patterns. -/
def ofPatterns (ps : List String) : Except ListFault Selection :=
  ((readPatterns ps).bind Pattern.checked).map fun patterns => ⟨patterns⟩

/-- One of the patterns matches the path. -/
def contains (s : Selection) (path : String) : Bool :=
  s.patterns.any (·.accepts path.toUTF8.toList)

/-- No pattern matches nothing. -/
@[simp] theorem contains_empty (path : String) : Selection.contains ⟨[]⟩ path = false := rfl

end Selection
end Expunge.Glob
