import LintSarif.Text.Numeral

/-!
# File errors

Why a file cannot be read or written, or a directory cannot be found.
-/

namespace LintSarif

/-- A cause for which an operation on files fails. -/
inductive FileError where
  /-- Nothing stands under the name. -/
  | notFound
  /-- A name is looked up in something that is no directory. -/
  | notADirectory
  /-- A directory is opened as a file. -/
  | isADirectory
  /-- No room is left for what is written. -/
  | storageFull
  /-- A name or a whole path is too long. -/
  | nameTooLong
  /-- The bytes of a file are not the UTF-8 form of a text. -/
  | invalidUtf8
  /-- A path holds the character U+0000. -/
  | nulInPath
  /-- A cause that only the operating system knows, with its number. -/
  | other (description : String) (code : Nat)
  deriving DecidableEq, Repr

/-- `e.message` is the text of the cause `e`. -/
def FileError.message : FileError → String
  | .notFound => "No such file or directory (os error 2)"
  | .notADirectory => "Not a directory (os error 20)"
  | .isADirectory => "Is a directory (os error 21)"
  | .storageFull => "No space left on device (os error 28)"
  | .nameTooLong => "File name too long (os error 36)"
  | .invalidUtf8 => "stream did not contain valid UTF-8"
  | .nulInPath => "file name contained an unexpected NUL byte"
  | .other description code =>
    description ++ " (os error " ++ String.ofList (Text.Numeral.digits code) ++ ")"

end LintSarif
