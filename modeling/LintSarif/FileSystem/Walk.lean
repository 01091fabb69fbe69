import LintSarif.FileSystem.Basic

/-!
# Walking along a path

A path is followed name by name, and every name is looked up in the directory that the names
before it lead to. So a name that is missing, or that names no directory where one is needed, is
an error even when two dots follow it.
-/

namespace LintSarif

/-- A path as it is followed. -/
structure Route where
  /-- The walk starts at the root, not at the current directory. -/
  fromRoot : Bool
  /-- The names between the slashes, single and double dots among them. -/
  names : List String
  /-- The path ends with a slash. -/
  endsInSlash : Bool
  deriving DecidableEq, Repr

namespace Route

/-- A path has fewer bytes than this. -/
def maxPathBytes : Nat := 4096

/-- A name has at most so many bytes. -/
def maxNameBytes : Nat := 255

/-- `ofPath path` is the way that `path` describes. The character U+0000 is looked for first; the
empty path leads nowhere. -/
def ofPath (path : String) : Except FileError Route :=
  let cs := path.toList
  if cs.contains '\x00' then .error .nulInPath
  else if cs.isEmpty then .error .notFound
  else if maxPathBytes ≤ path.utf8ByteSize then .error .nameTooLong
  else
    .ok {
      fromRoot := cs.head? == some '/'
      names := ((cs.splitOn '/').filter fun name => !name.isEmpty).map String.ofList
      endsInSlash := cs.getLast? == some '/' }

end Route

namespace FileSystem

/-- `fs.origin route` is the place where `route` starts. -/
def origin (fs : FileSystem) (route : Route) : Place :=
  if route.fromRoot then .present [] else fs.workingPlace

/-- `fs.requireDirectory place` fails unless `place` is a directory. -/
def requireDirectory (fs : FileSystem) (place : Place) : Except FileError Unit :=
  match fs.nodeAt? place with
  | some .directory => .ok ()
  | some _ => .error .notADirectory
  | none => .error .notFound

/-- `fs.childOf place name` is the location of `name` in the directory `place`, whether anything
stands there or not. -/
def childOf (place : Place) (name : String) : Except FileError Location :=
  match place with
  | .removed _ => .error .notFound
  | .present location =>
    if Route.maxNameBytes < name.utf8ByteSize then .error .nameTooLong
    else .ok (name :: location)

/-- `fs.enter place name` is the place to which `name` leads from `place`. -/
def enter (fs : FileSystem) (place : Place) (name : String) : Except FileError Place := do
  fs.requireDirectory place
  if name = "." then return place
  else if name = ".." then return place.parent
  else
    let location ← childOf place name
    if (fs.node? location).isSome then return .present location else throw .notFound

/-- `fs.walk place names` is the place to which the names lead from `place`. -/
def walk (fs : FileSystem) (place : Place) (names : List String) : Except FileError Place :=
  names.foldlM fs.enter place

end FileSystem

end LintSarif
