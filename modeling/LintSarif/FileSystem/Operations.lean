import LintSarif.FileSystem.Walk

/-!
# Operations on a file system

Reading a file, writing a file and finding the current directory. A write empties or makes its file
first and then offers its bytes as often as some of them are taken (`writeAll`), so a write that
fails for want of room leaves a file that holds less than was to be written. All other failures
leave the file system as it was.

The operations of the last section make states and show them: they make and change directories, put
files where a test wants them and list all files. The program performs none of them.
-/

namespace LintSarif.FileSystem

/-! ## Reading -/

/-- `fs.readBytes path` are the bytes of the file at `path`. A slash at the end of the path asks
for a directory. The bytes of a device that never end do not fit into the memory. -/
def readBytes (fs : FileSystem) (path : String) : Except FileError ByteArray := do
  let route ← Route.ofPath path
  let place ← fs.walk (fs.origin route) route.names
  match fs.nodeAt? place with
  | none => throw .notFound
  | some .directory => throw .isADirectory
  | some (.file content) => if route.endsInSlash then throw .notADirectory else return content
  | some .nullDevice => if route.endsInSlash then throw .notADirectory else return .empty
  | some .fullDevice =>
    if route.endsInSlash then throw .notADirectory
    else throw (.other "Cannot allocate memory" 12)

/-- `fs.readText path` is the text of the file at `path`. -/
def readText (fs : FileSystem) (path : String) : Except FileError String := do
  match String.fromUTF8? (← fs.readBytes path) with
  | some text => return text
  | none => throw .invalidUtf8

/-! ## Writing -/

/-- `fs.target path` is the location of the file that is written under `path`. The directory above
it exists, and the location holds no directory. -/
def target (fs : FileSystem) (path : String) : Except FileError Location := do
  let route ← Route.ofPath path
  match route.names.getLast? with
  | none => throw .isADirectory
  | some name =>
    let place ← fs.walk (fs.origin route) route.names.dropLast
    fs.requireDirectory place
    if name = "." ∨ name = ".." ∨ route.endsInSlash then throw .isADirectory
    let location ← childOf place name
    if fs.node? location = some .directory then throw .isADirectory
    return location

/-- `fs.roomAt location` is the number of bytes that can be added to the file at `location`, or
`none` if there is no limit. Nothing can be added where there is no file. -/
def roomAt (fs : FileSystem) (location : Location) : Option Nat :=
  match fs.node? location with
  | some (.file _) => fs.room
  | some .nullDevice => none
  | _ => some 0

/-- `fs.truncate location` is `fs` with an empty file at `location`. The bytes of an old file are
room again. What is no file stays as it is. -/
def truncate (fs : FileSystem) (location : Location) : FileSystem :=
  match fs.node? location with
  | none => fs.set location (.file .empty)
  | some (.file old) =>
    { fs.set location (.file .empty) with room := fs.room.map fun room => room + old.size }
  | some _ => fs

/-- `fs.extend location bytes` is `fs` with `bytes` at the end of the file at `location`, where they
take up room. What is no file stays as it is. -/
def extend (fs : FileSystem) (location : Location) (bytes : ByteArray) : FileSystem :=
  match fs.node? location with
  | some (.file content) =>
    { fs.set location (.file (content ++ bytes)) with
      room := fs.room.map fun room => room - bytes.size }
  | _ => fs

/-- `fs.write location bytes` offers `bytes`, of which there is one at least, to the file at
`location`. As many of them are taken as there is room for, from the first on; the answer is their
number. An offer of which nothing is taken fails. -/
def write (fs : FileSystem) (location : Location) (bytes : ByteArray) :
    Except FileError (Nat × FileSystem) :=
  let taken := (fs.roomAt location).elim bytes.size (min bytes.size)
  if taken = 0 then .error .storageFull
  else .ok (taken, fs.extend location (bytes.extract 0 taken))

/-- What is taken is something, no more than was offered and no more than there is room for. -/
theorem taken_of_write {fs next : FileSystem} {location : Location} {bytes : ByteArray}
    {taken : Nat} (h : fs.write location bytes = .ok (taken, next)) :
    (0 < taken ∧ taken ≤ bytes.size ∧ ∀ room, fs.roomAt location = some room → taken ≤ room) ∧
      next = fs.extend location (bytes.extract 0 taken) := by
  unfold write at h
  dsimp only at h
  split at h
  · contradiction
  · next hsome =>
      cases h
      refine ⟨⟨Nat.pos_of_ne_zero hsome, ?_, fun room hroom => ?_⟩, rfl⟩
      · cases fs.roomAt location with
        | none => exact Nat.le_refl _
        | some room => exact Nat.min_le_left _ _
      · rw [hroom]
        exact Nat.min_le_right _ _

/-- `fs.writeAll location bytes` offers what is left of `bytes` to the file at `location` until
nothing is left or nothing is taken. What has been taken stays there. -/
def writeAll (fs : FileSystem) (location : Location) (bytes : ByteArray) :
    Except FileError Unit × FileSystem :=
  if _hsize : bytes.size = 0 then (.ok (), fs)
  else
    match _hwrite : fs.write location bytes with
    | .error cause => (.error cause, fs)
    | .ok (taken, next) => next.writeAll location (bytes.extract taken bytes.size)
termination_by bytes.size
decreasing_by
  obtain ⟨⟨hsome, hoffered, -⟩, -⟩ := taken_of_write _hwrite
  rw [ByteArray.size_extract]
  omega

/-- `fs.overwrite path bytes` is the outcome of creating or overwriting the file at `path` with
`bytes`, and the file system after it. -/
def overwrite (fs : FileSystem) (path : String) (bytes : ByteArray) :
    Except FileError Unit × FileSystem :=
  match fs.target path with
  | .error cause => (.error cause, fs)
  | .ok location => (fs.truncate location).writeAll location bytes

/-- `fs.writeText path text` is the outcome of creating or overwriting the file at `path` with
`text`, and the file system after it. -/
def writeText (fs : FileSystem) (path text : String) : Except FileError Unit × FileSystem :=
  fs.overwrite path text.toUTF8

/-! ## The current directory -/

/-- `fs.currentDirectory` is the absolute path of the current directory. -/
def currentDirectory (fs : FileSystem) : Except FileError String :=
  match fs.workingPlace with
  | .present location => .ok location.text
  | .removed _ => .error .notFound

/-! ## Making and showing states -/

/-- `fs.writeBytes path content` is `fs` after all of `content` was written to the file at
`path`. -/
def writeBytes (fs : FileSystem) (path : String) (content : ByteArray) :
    Except FileError FileSystem :=
  match fs.overwrite path content with
  | (.error cause, _) => .error cause
  | (.ok (), next) => .ok next

/-- `enterOrMake (fs, place) name` goes where `name` leads from `place` and makes a directory there
if there is nothing. -/
def enterOrMake : FileSystem × Place → String → Except FileError (FileSystem × Place)
  | (fs, place), name => do
    fs.requireDirectory place
    match fs.enter place name with
    | .ok next => return (fs, next)
    | .error .notFound =>
      let location ← childOf place name
      return (fs.set location .directory, .present location)
    | .error e => throw e

/-- `fs.makeDirectories path` is `fs` with a directory at `path` and wherever the path leads
through. The empty path leads through nothing, so it asks for no directory. -/
def makeDirectories (fs : FileSystem) (path : String) : Except FileError FileSystem :=
  if path.isEmpty then .ok fs
  else do
    let route ← Route.ofPath path
    let (fs, place) ← route.names.foldlM enterOrMake (fs, fs.origin route)
    fs.requireDirectory place
    return fs

/-- `fs.changeDirectory path` is `fs` with the directory at `path` as the current one. -/
def changeDirectory (fs : FileSystem) (path : String) : Except FileError FileSystem := do
  let route ← Route.ofPath path
  let place ← fs.walk (fs.origin route) route.names
  fs.requireDirectory place
  return { fs with workingPlace := place }

/-- `fs.removeCurrentDirectory` is `fs` without the current directory, which must be empty. The
process stays in it. -/
def removeCurrentDirectory (fs : FileSystem) : Except FileError FileSystem :=
  match fs.workingPlace with
  | .removed _ => .error .notFound
  | .present [] => .error (.other "Device or resource busy" 16)
  | .present (name :: parent) =>
    if fs.nodes.any fun entry => entry.1 != [] && entry.1.tail == name :: parent then
      .error (.other "Directory not empty" 39)
    else .ok { fs.erase (name :: parent) with workingPlace := .removed parent }

/-- `fs.files` are the absolute paths of all files, in the order of their characters. -/
def files (fs : FileSystem) : List String :=
  let paths := fs.nodes.filterMap fun entry =>
    match entry.2 with
    | .file _ => some entry.1.text
    | _ => none
  paths.mergeSort fun a b => a ≤ b

end LintSarif.FileSystem
