import Expunge.Glob.Pattern
import Expunge.Text.Blank
import Expunge.Text.Search

/-!
# Ignore lines

The lines of an ignore file. Each is a glob that hides paths, or with `!` shows them again; with
a slash at its end it speaks of directories alone, and without another slash it matches at any
depth. Of the lines that match a path the last one decides (`ignores_append`).
-/

namespace Expunge.Glob
set_option autoImplicit false
open Text

/-- The dialect of ignore lines. -/
def ignoreDialect : Dialect := ⟨true, true⟩

/-- An ignore line that is not a comment. -/
structure IgnoreRule where
  /-- The line shows again what an earlier line hides. -/
  reincludes : Bool
  /-- The line speaks of directories alone. -/
  onlyDirectories : Bool
  pattern : Pattern
  deriving DecidableEq, Repr

namespace IgnoreRule

/-- The line speaks of the path. -/
def applies (r : IgnoreRule) (path : List UInt8) (isDirectory : Bool) : Bool :=
  (!r.onlyDirectories || isDirectory) && r.pattern.accepts path

/-- An ignore line without the blanks that do not count: a blank at the end counts if a
backslash stands before it. -/
def significant (line : List Char) : List Char :=
  if ['\\', ' '].isSuffixOf line then line else trimEnd line

/-- The parts of an ignore line. -/
structure Parts where
  reincludes : Bool
  /-- The line starts with a slash and matches from the root alone. -/
  anchored : Bool
  onlyDirectories : Bool
  glob : List Char
  deriving DecidableEq, Repr

/-- Takes the sign at the start of a line off: a backslash before `!` or `#`, or `!` and then a
slash. -/
def Parts.ofStart : List Char → Parts
  | '\\' :: '!' :: cs => ⟨false, false, false, '!' :: cs⟩
  | '\\' :: '#' :: cs => ⟨false, false, false, '#' :: cs⟩
  | '!' :: '/' :: cs => ⟨true, true, false, cs⟩
  | '!' :: cs => ⟨true, false, false, cs⟩
  | '/' :: cs => ⟨false, true, false, cs⟩
  | cs => ⟨false, false, false, cs⟩

/-- Takes the slash at the end of a line off, with a backslash before it. -/
def Parts.cutEnd (p : Parts) : Parts :=
  match p.glob.reverse with
  | '/' :: '\\' :: cs => { p with onlyDirectories := true, glob := cs.reverse }
  | '/' :: cs => { p with onlyDirectories := true, glob := cs.reverse }
  | _ => p

/-- The glob for whole paths that a line stands for. -/
def Parts.wholeGlob (p : Parts) : List Char :=
  let anywhere := !p.anchored && !p.glob.contains '/' && p.glob != ['*', '*']
  let glob := if anywhere then ['*', '*', '/'] ++ p.glob else p.glob
  if ['/', '*', '*'].isSuffixOf glob then glob ++ ['/', '*'] else glob

/-- Reads an ignore line; a comment and a blank line hold no rule. -/
def ofLine (line : List Char) : Except Refusal (Option IgnoreRule) :=
  if line.head? = some '#' then .ok none
  else
    let line := significant line
    if line.isEmpty then .ok none
    else
      let parts := (Parts.ofStart line).cutEnd
      match read ignoreDialect parts.wholeGlob with
      | .error cause => .error ⟨String.ofList line, cause⟩
      | .ok r => .ok (some ⟨parts.reincludes, parts.onlyDirectories, r⟩)

end IgnoreRule

/-- The last of the rules that speak of a path hides it. -/
def ignores (rules : List IgnoreRule) (path : List UInt8) (isDirectory : Bool) : Bool :=
  ((rules.filter (·.applies path isDirectory)).getLast?.map (!·.reincludes)).getD false

@[simp] theorem ignores_nil (path : List UInt8) (isDirectory : Bool) :
    ignores [] path isDirectory = false := rfl

/-- A rule at the end decides where it applies, and changes nothing elsewhere. -/
theorem ignores_append (rules : List IgnoreRule) (r : IgnoreRule) (path : List UInt8)
    (isDirectory : Bool) :
    ignores (rules ++ [r]) path isDirectory =
      if r.applies path isDirectory then !r.reincludes else ignores rules path isDirectory := by
  by_cases h : r.applies path isDirectory <;> simp [ignores, List.filter_append, h]

/-- The rules, if the nesting of their globs allows to use them. -/
def checkedRules (rules : List IgnoreRule) : Except ListFault (List IgnoreRule) :=
  (Pattern.checked (rules.map (·.pattern))).map fun _ => rules

/-- Reads ignore lines; the first one that cannot be read is refused. -/
def readLines : List String → Except ListFault (List IgnoreRule)
  | [] => .ok []
  | l :: ls =>
    match IgnoreRule.ofLine l.toList with
    | .error refusal => .error (.refused l refusal)
    | .ok rule => (readLines ls).map (rule.toList ++ ·)

/-- The rules of the ignore lines of the settings. -/
def rulesOfSettings (ls : List String) : Except ListFault (List IgnoreRule) :=
  (readLines ls).bind checkedRules

/-- The lines of the bytes of a file: each without its line feed and a carriage return before
it. What follows the last line feed is a line if it is not empty. -/
def fileLines (bytes : List UInt8) : List (List UInt8) :=
  let ls := bytes.splitOn 10
  let ended := ls.dropLast.map fun l => if l.getLast? = some 13 then l.dropLast else l
  ended ++ (ls.getLast?.filter (!·.isEmpty)).toList

/-- The texts of the lines up to the first one that is not UTF-8. -/
def readableLines : List (List UInt8) → List (List Char)
  | [] => []
  | l :: ls =>
    match String.fromUTF8? ⟨l.toArray⟩ with
    | none => []
    | some s => s.toList :: readableLines ls

/-- Cuts byte order marks off the first line. -/
def withoutMark : List (List Char) → List (List Char)
  | [] => []
  | l :: ls => l.dropWhile (· = '\uFEFF') :: ls

/-- The lines of an ignore file that can be read. -/
def readableRules (bytes : ByteArray) : List IgnoreRule :=
  (withoutMark (readableLines (fileLines bytes.toList))).flatMap fun l =>
    match IgnoreRule.ofLine l with
    | .ok (some rule) => [rule]
    | _ => []

/-- The rules of an ignore file. Lines that cannot be read are skipped, but if a line is nested
too deep there are no rules. -/
def rulesOfFile (bytes : ByteArray) : List IgnoreRule :=
  match checkedRules (readableRules bytes) with
  | .ok rules => rules
  | .error _ => []

end Expunge.Glob
