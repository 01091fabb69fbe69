import LintSarif.Program

/-!
# The executable

The program on the real file system. The log goes to standard error.
-/

namespace LintSarif

/-- `systemCode code` is the number of a system error, which is reported with either sign. -/
def systemCode (code : UInt32) : Nat :=
  code.toInt32.toInt.natAbs

/-- `FileError.ofSystem e` is the cause of the system's error `e`. -/
def FileError.ofSystem : IO.Error → FileError
  | .noFileOrDirectory .. => .notFound
  | .alreadyExists _ code description | .otherError code description
  | .resourceBusy code description | .resourceVanished code description
  | .unsupportedOperation code description | .hardwareFault code description
  | .unsatisfiedConstraints code description | .illegalOperation code description
  | .protocolError code description | .timeExpired code description
  | .interrupted _ code description | .invalidArgument _ code description
  | .permissionDenied _ code description | .resourceExhausted _ code description
  | .inappropriateType _ code description | .noSuchThing _ code description =>
    match systemCode code with
    | 2 => .notFound
    | 20 => .notADirectory
    | 21 => .isADirectory
    | 28 => .storageFull
    | 36 => .nameTooLong
    | code => .other description code
  | .unexpectedEof => .other "unexpected end of file" 0
  | .userError description => .other description 0

/-- `attempt action` runs `action` and catches the system's error. -/
def attempt {α : Type} (action : IO α) : IO (Except FileError α) := do
  match ← action.toBaseIO with
  | .ok value => return .ok value
  | .error e => return .error (.ofSystem e)

/-- `checked path action` runs `action` unless `path` holds the character U+0000. -/
def checked {α : Type} (path : String) (action : IO α) : IO (Except FileError α) :=
  if path.contains '\x00' then return .error .nulInPath else attempt action

instance : Host IO where
  readText path := do
    match ← checked path (IO.FS.readBinFile path) with
    | .error cause => return .error cause
    | .ok bytes =>
      match String.fromUTF8? bytes with
      | some text => return .ok text
      | none => return .error .invalidUtf8
  currentDirectory := do
    match ← IO.currentDir.toBaseIO with
    | .ok path => return .ok path.toString
    -- The system names no cause; a current directory without a path has been removed.
    | .error _ => return .error .notFound
  writeText path text :=
    checked path do
      IO.FS.withFile path .write fun handle => do
        handle.putStr text
        -- What is still buffered when the file is closed would be lost without an error.
        handle.flush

end LintSarif

open LintSarif in
/-- Runs the program with the words after its name and answers its exit status. -/
def main (words : List String) : IO UInt32 := do
  let report : Report ← Program.run words
  IO.print report.output
  IO.eprint report.errorText
  return report.status.code.toUInt32
