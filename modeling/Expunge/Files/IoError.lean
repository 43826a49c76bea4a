/-!
# Errors of the file system

What can go wrong with a file operation, and the text of each error.
-/

namespace Expunge
set_option autoImplicit false

/-- Why a file operation failed. -/
inductive IoError
  | notFound
  | notADirectory
  | isADirectory
  /-- A name of more than 255 bytes, or a path of 4096 or more. -/
  | nameTooLong
  /-- More than 40 symbolic links on the way. -/
  | tooManyLinks
  /-- The path holds the character that ends paths. -/
  | nulInPath
  /-- The content is not UTF-8. -/
  | notUtf8
  /-- Any other error of the system, with its number. -/
  | system (text : String) (code : Nat)
  deriving DecidableEq, Repr

/-- The text of an error. -/
def IoError.message : IoError → String
  | notFound => "No such file or directory (os error 2)"
  | notADirectory => "Not a directory (os error 20)"
  | isADirectory => "Is a directory (os error 21)"
  | nameTooLong => "File name too long (os error 36)"
  | tooManyLinks => "Too many levels of symbolic links (os error 40)"
  | nulInPath => "file name contained an unexpected NUL byte"
  | notUtf8 => "stream did not contain valid UTF-8"
  | system text code => text ++ " (os error " ++ toString code ++ ")"

/-- The access is denied. -/
def IoError.denied : IoError := .system "Permission denied" 13

end Expunge
