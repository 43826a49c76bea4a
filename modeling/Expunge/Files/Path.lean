/-!
# Paths

A path is a text with separators. Below a directory a file is known by the names that lead to it;
`below` spells that as a path, after the text of the directory as it was given.
-/

namespace Expunge
set_option autoImplicit false

/-- The name of a file in its directory. -/
abbrev FileName := String

/-- A part of a path that names an entry, and not a directory on the way to it. -/
structure IsName (name : FileName) : Prop where
  some : name ≠ ""
  notDot : name ≠ "."
  notUp : name ≠ ".."

instance (name : FileName) : Decidable (IsName name) :=
  decidable_of_iff (name ≠ "" ∧ name ≠ "." ∧ name ≠ "..")
    ⟨fun h => ⟨h.1, h.2.1, h.2.2⟩, fun h => ⟨h.some, h.notDot, h.notUp⟩⟩

/-- A part of a path stays where it is, goes up, or names an entry. -/
theorem name_cases (name : FileName) : (name = "" ∨ name = ".") ∨ name = ".." ∨ IsName name := by
  by_cases dot : name = "" ∨ name = "."
  · exact .inl dot
  by_cases up : name = ".."
  · exact .inr (.inl up)
  · exact .inr (.inr ⟨fun e => dot (.inl e), fun e => dot (.inr e), up⟩)

/-- A name that an entry can have. -/
structure IsFileName (name : FileName) : Prop extends IsName name where
  plain : '/' ∉ name.toList

instance (name : FileName) : Decidable (IsFileName name) :=
  decidable_of_iff (IsName name ∧ '/' ∉ name.toList)
    ⟨fun h => ⟨h.1, h.2⟩, fun h => ⟨h.toIsName, h.plain⟩⟩

/-- The names that lead from a directory to a file below it, the outermost first. -/
abbrev RelPath := List FileName

/-- The order of paths below a directory: by the first name that differs, and a directory before
what is below it. -/
def RelPath.precedes (a b : RelPath) : Bool := !List.lex b a fun s t => decide (s < t)

theorem RelPath.precedes_iff {a b : RelPath} : RelPath.precedes a b = true ↔ ¬ b < a := by
  rw [RelPath.precedes, Bool.not_eq_true', ← Bool.not_eq_true, List.lex_eq_true_iff_lt]

namespace Path

/-- The path of an entry of a directory. -/
def join (directory : String) (name : FileName) : String :=
  if directory.isEmpty then name
  else if directory.toList.getLast? = some '/' then directory ++ name
  else directory ++ "/" ++ name

/-- The path of a file below a directory. -/
def below (directory : String) (rel : RelPath) : String := rel.foldl join directory

@[simp] theorem below_nil (directory : String) : below directory [] = directory := rfl

theorem below_append (directory : String) (rel : RelPath) (name : FileName) :
    below directory (rel ++ [name]) = join (below directory rel) name := by
  simp [below, List.foldl_append]

/-- A joined path is longer than that of its directory. -/
theorem utf8ByteSize_lt_join (directory : String) {name : FileName} (some : name ≠ "") :
    directory.utf8ByteSize < (join directory name).utf8ByteSize := by
  have length : 0 < name.utf8ByteSize := 
    Nat.pos_of_ne_zero fun none => some (String.utf8ByteSize_eq_zero_iff.1 none)
  unfold join
  split
  · rename_i none
    rw [String.isEmpty_iff.1 none]
    exact length
  · split
    · rw [String.utf8ByteSize_append]
      omega
    · rw [String.utf8ByteSize_append, String.utf8ByteSize_append]
      omega

/-- The parts of a path between its separators, empty ones too. -/
def segments (path : String) : List FileName := (path.toList.splitOn '/').map String.ofList

/-- The path starts at the top. -/
def isAbsolute (path : String) : Bool := path.toList.head? = some '/'

/-- What a path says step by step: repeated separators say nothing, nor does a dot after the
start. -/
def components (path : String) : List String :=
  let steps := (segments path).filter fun s => s ≠ "" ∧ s ≠ "."
  if isAbsolute path then "/" :: steps
  else if (segments path).head? = some "." then "." :: steps
  else steps

/-- A path as it reads from a directory, or the path itself if it is not below. -/
def relativeTo (directory path : String) : String :=
  if (components directory).isPrefixOf (components path) then
    "/".intercalate ((components path).drop (components directory).length)
  else path

end Path
end Expunge
