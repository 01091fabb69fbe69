import LintSarif.FileSystem.Operations
import LintSarif.Program

/-!
# Conversions on a file system

A file system that is carried along as a state is a host for conversions, and so for runs of the
program. Only a write changes the state, and it may do so also when it fails.
-/

namespace LintSarif.FileSystem

instance : Host (StateM FileSystem) where
  readText path := fun fs => (fs.readText path, fs)
  currentDirectory := fun fs => (fs.currentDirectory, fs)
  writeText path text := fun fs => fs.writeText path text

/-- `fs.convert input output` is the conversion of the file `input` to the file `output` on `fs`,
and the file system after it. -/
def convert (fs : FileSystem) (input output : String) : Conversion × FileSystem :=
  Id.run ((LintSarif.convert input output : StateM FileSystem Conversion).run fs)

/-- `fs.run words` is a run of the program with `words` on `fs`, and the file system after it. -/
def run (fs : FileSystem) (words : List String) : Report × FileSystem :=
  Id.run ((Program.run words : StateM FileSystem Report).run fs)

end LintSarif.FileSystem
