/-!
# Settings

What a user may choose: the markers that name the licence and fence a snippet, the comment
tokens of the source language, and which files are scanned. Every setting has a default, and
`Settings.emptyToken?` finds the first token that is empty and so would occur in every line.
-/

namespace Expunge
set_option autoImplicit false

/-- The default licence marker. -/
def defaultLicense : String := "SPDX-License-Identifier: LicenseRef-SEL"

/-- The default marker that opens a snippet. -/
def defaultOpening : String := "// SPDX-SnippetBegin"

/-- The default marker that closes a snippet. -/
def defaultClosing : String := "// SPDX-SnippetEnd"

/-- The pattern of the files that are scanned by default. -/
def defaultInclude : String := "**/*.rs"

/-- The default limit on the size of a file, in bytes. -/
def defaultMaxFileSize : Nat := 10 * 1024 * 1024

/-- Three texts that are searched for in a source file. -/
structure Markers where
  /-- Makes a comment or a snippet proprietary. -/
  license : String := defaultLicense
  /-- Opens a snippet. -/
  opening : String := defaultOpening
  /-- Closes a snippet. -/
  closing : String := defaultClosing
  deriving DecidableEq, Repr, Inhabited

/-- The tokens by which the leading comment of a file is recognised. -/
structure CommentTokens where
  /-- Opens a block comment. -/
  blockOpen : String := "/*"
  /-- Closes a block comment. -/
  blockClose : String := "*/"
  /-- Starts a line comment. -/
  line : String := "//"
  deriving DecidableEq, Repr, Inhabited

/-- Which files are scanned. -/
structure ScanSettings where
  /-- Patterns of the files to scan, relative to the root. -/
  includes : List String := [defaultInclude]
  /-- Ignore lines of the files and directories to leave out. -/
  excludes : List String := []
  /-- Do not read the ignore file of the root. -/
  disableGitignore : Bool := false
  /-- A larger file is reported and left as it is. -/
  maxFileSize : Nat := defaultMaxFileSize
  deriving DecidableEq, Repr, Inhabited

/-- All settings of a run. -/
structure Settings where
  markers : Markers := {}
  comments : CommentTokens := {}
  scan : ScanSettings := {}
  deriving DecidableEq, Repr, Inhabited

namespace Settings

/-- The names under which a settings file is looked for, in order of precedence. -/
def fileNames : List String := ["ossify.toml", ".ossify.toml", ".config/ossify.toml"]

/-- The tokens that may not be empty, each under its key. -/
def tokens (s : Settings) : List (String × String) :=
  [("markers.license", s.markers.license), ("markers.begin", s.markers.opening),
    ("markers.end", s.markers.closing), ("comments.block_open", s.comments.blockOpen),
    ("comments.block_close", s.comments.blockClose), ("comments.line", s.comments.line)]

/-- The key of the first empty token. -/
def emptyToken? (s : Settings) : Option String :=
  (s.tokens.find? (·.2.isEmpty)).map (·.1)

/-- No token is empty exactly when the search for one fails. -/
theorem emptyToken?_eq_none_iff {s : Settings} :
    s.emptyToken? = none ↔ ∀ t ∈ s.tokens, t.2 ≠ "" := by
  simp [emptyToken?]

/-- The default settings have no empty token. -/
theorem emptyToken?_default : ({} : Settings).emptyToken? = none := by decide

end Settings
end Expunge
