import Expunge.Fault
import Expunge.Settings.Basic
import Expunge.Toml.Document

/-!
# Reading settings

A settings file is a TOML document with the sections `markers`, `comments` and `scan`. A section
is a table, or an array whose items fill the fields in their order; what is missing has its
default. Unknown keys are ignored, if their numbers can be read and fit the widest types.
-/

namespace Expunge
set_option autoImplicit false
open Toml (Value)

/-- The least integer of 128 bits with a sign. -/
def leastInteger : Int := -0x80000000000000000000000000000000

/-- The greatest integer of 128 bits without a sign. -/
def greatestInteger : Int := 0xffffffffffffffffffffffffffffffff

mutual

/-- The numbers in an ignored value can be read and fit the widest types. -/
def fits : Value → Bool
  | .integer (some n) => decide (leastInteger ≤ n) && decide (n ≤ greatestInteger)
  | .integer none => false
  | .float overflows => !overflows
  | .array _ items => itemsFit items
  | .table _ es => entriesFit es
  | .string _ | .boolean _ | .moment => true

/-- The numbers in ignored items fit. -/
def itemsFit : List Value → Bool
  | [] => true
  | v :: vs => fits v && itemsFit vs

/-- The numbers in ignored entries fit. -/
def entriesFit : List (String × Value) → Bool
  | [] => true
  | (_, v) :: es => fits v && entriesFit es

end

/-- A field of a record: its key, and what its value does to the record. -/
structure Field (α : Type) where
  key : String
  set : α → Value → Option α

/-- Fills the fields in their order. -/
def fillInOrder {α : Type} (a : α) : List (Field α) → List Value → Option α
  | f :: fs, v :: vs => (f.set a v).bind fun a => fillInOrder a fs vs
  | _, _ => some a

/-- Fills the fields by their keys. -/
def fillByKey {α : Type} (fields : List (Field α)) (a : α) : List (String × Value) → Option α
  | [] => some a
  | (key, v) :: es =>
    match fields.find? (·.key = key) with
    | some f => (f.set a v).bind fun a => fillByKey fields a es
    | none => if fits v then fillByKey fields a es else none

/-- Fills a record with defaults from a section. A moment is a section without known keys. -/
def fill {α : Type} (fields : List (Field α)) (default : α) : Value → Option α
  | .table _ es => fillByKey fields default es
  | .array _ items => fillInOrder default fields items
  | .moment => some default
  | _ => none

/-- The text of a string. -/
def text? : Value → Option String
  | .string s => some s
  | _ => none

/-- The texts of an array of strings. -/
def texts? : Value → Option (List String)
  | .array _ items => items.mapM text?
  | _ => none

/-- A truth value. -/
def flag? : Value → Option Bool
  | .boolean b => some b
  | _ => none

/-- The greatest size: the greatest integer of 64 bits. -/
def greatestSize : Int := 0xffffffffffffffff

/-- A size. -/
def size? : Value → Option Nat
  | .integer (some n) => if 0 ≤ n ∧ n ≤ greatestSize then some n.toNat else none
  | _ => none

/-- The fields of the section `markers`. -/
def Markers.fields : List (Field Markers) :=
  [⟨"license", fun m v => (text? v).map fun s => { m with license := s }⟩,
    ⟨"begin", fun m v => (text? v).map fun s => { m with opening := s }⟩,
    ⟨"end", fun m v => (text? v).map fun s => { m with closing := s }⟩]

/-- The fields of the section `comments`. -/
def CommentTokens.fields : List (Field CommentTokens) :=
  [⟨"block_open", fun t v => (text? v).map fun s => { t with blockOpen := s }⟩,
    ⟨"block_close", fun t v => (text? v).map fun s => { t with blockClose := s }⟩,
    ⟨"line", fun t v => (text? v).map fun s => { t with line := s }⟩]

/-- The fields of the section `scan`. -/
def ScanSettings.fields : List (Field ScanSettings) :=
  [⟨"include", fun s v => (texts? v).map fun ps => { s with includes := ps }⟩,
    ⟨"exclude", fun s v => (texts? v).map fun ps => { s with excludes := ps }⟩,
    ⟨"disable_gitignore", fun s v => (flag? v).map fun b => { s with disableGitignore := b }⟩,
    ⟨"max_file_size", fun s v => (size? v).map fun n => { s with maxFileSize := n }⟩]

namespace Settings

/-- The sections of a settings file. -/
def fields : List (Field Settings) :=
  [⟨"markers", fun s v => (fill Markers.fields {} v).map fun m => { s with markers := m }⟩,
    ⟨"comments", fun s v => (fill CommentTokens.fields {} v).map fun t => { s with comments := t }⟩,
    ⟨"scan", fun s v => (fill ScanSettings.fields {} v).map fun c => { s with scan := c }⟩]

/-- The settings that a TOML document holds. -/
def ofToml (v : Value) : Option Settings := fill fields {} v

/-- Settings without an empty token. -/
def checked (s : Settings) : Except SettingsFault Settings :=
  match s.emptyToken? with
  | some key => .error (.emptyToken key)
  | none => .ok s

/-- Reads the text of a settings file. -/
def parse (text : String) : Except SettingsFault Settings :=
  match (Toml.parse text).bind ofToml with
  | none => .error .malformed
  | some s => s.checked

end Settings
end Expunge
