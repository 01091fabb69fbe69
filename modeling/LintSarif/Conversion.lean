import LintSarif.FileError
import LintSarif.Sarif.Encoding

/-!
# Converting a file

A conversion reads the input file, scans its text, finds the current directory, builds the
document and writes it to the output file, in this order. The first step that fails ends it. Only
the last one writes, so nothing has been written when another one fails; when the last one fails, a
part of the document may have been.

What a conversion needs from its surroundings is the class `Host`, so the same conversion runs on
a real file system and on one that is a value.
-/

namespace LintSarif

/-- Surroundings in which a conversion can run. -/
class Host (m : Type → Type) where
  /-- The text of the file at a path. -/
  readText : String → m (Except FileError String)
  /-- The absolute path of the current directory. -/
  currentDirectory : m (Except FileError String)
  /-- Creates or overwrites the file at a path. -/
  writeText : String → String → m (Except FileError Unit)

/-- The step at which a conversion fails. -/
inductive ConversionError where
  | readInput (path : String) (cause : FileError)
  | currentDirectory (cause : FileError)
  | writeOutput (path : String) (cause : FileError)
  deriving DecidableEq, Repr

/-- `e.message` says what failed and why. -/
def ConversionError.message : ConversionError → String
  | .readInput path cause => "cannot read " ++ path ++ ": " ++ cause.message
  | .currentDirectory cause => "cannot resolve current directory: " ++ cause.message
  | .writeOutput path cause => "cannot write " ++ path ++ ": " ++ cause.message

/-- What a conversion reported, and the number of its diagnostics or why it failed. -/
structure Conversion where
  events : List Log.Event
  result : Except ConversionError Nat

/-- `convert input output` converts the file `input` to the file `output`. -/
def convert {m : Type → Type} [Monad m] [Host m] (input output : String) : m Conversion := do
  match ← Host.readText input with
  | .error cause => return ⟨[], .error (.readInput input cause)⟩
  | .ok text =>
    let scan := Scan.ofText text
    match ← Host.currentDirectory with
    | .error cause => return ⟨scan.events, .error (.currentDirectory cause)⟩
    | .ok base =>
      let (events, document) := Sarif.Document.ofDiagnostics scan.diagnostics base
      match ← Host.writeText output document.render with
      | .error cause => return ⟨scan.events ++ events, .error (.writeOutput output cause)⟩
      | .ok () => return ⟨scan.events ++ events, .ok scan.diagnostics.length⟩

end LintSarif
