import LintSarif.FileError

/-!
# File systems

A file system as a table from locations to what stands there, together with the directory that a
process works in and the room that is left for the bytes of files. A process may go on working in a
directory that was removed; it can look up nothing there, but two dots still lead to the directory
above.

Left out are links and all other second names of a file, among them those under which a process
finds its own streams, such as `/dev/stdout`: what is written to a file never shows on a stream
here. Left out are also the devices besides the two below, permissions, reads that fail in the
middle of a file, writes that fail for another cause than want of room, and the room that names and
directories take up.

The main statements are `node?_set_self` and `node?_set_of_ne`: putting something at a location
changes that location and no other.
-/

namespace LintSarif

/-- The names on the way from the root to a file or directory, the innermost first. -/
abbrev Location := List String

namespace Location

/-- `text l` is the absolute path of `l`. -/
def text (l : Location) : String :=
  "/" ++ "/".intercalate l.reverse

example : text [] = "/" := by decide +kernel

example : text ["in", "work"] = "/work/in" := by decide +kernel

end Location

namespace FileSystem

/-- Contents are compared byte by byte, whichever instances are imported. -/
local instance instDecidableEqContent : DecidableEq ByteArray :=
  ByteArray.instDecidableEq

/-- What can stand at a location. -/
inductive Node where
  | directory
  | file (content : ByteArray)
  /-- A device that is empty when read and swallows what is written. -/
  | nullDevice
  /-- A device that can be opened for writing and has no room for anything. What is read from it
  never ends. -/
  | fullDevice
  deriving DecidableEq

/-- Where a walk over a file system can stand. -/
inductive Place where
  /-- At a location. -/
  | present (location : Location)
  /-- In a directory that was removed from the directory `parent`. -/
  | removed (parent : Location)
  deriving DecidableEq, Repr

/-- `p.parent` is the place above `p`. The root is its own parent. -/
def Place.parent : Place → Place
  | .present location => .present location.tail
  | .removed parent => .present parent

end FileSystem

/-- Files, directories, the place where a process works and the room that is left. -/
structure FileSystem where
  /-- What stands where. -/
  nodes : List (Location × FileSystem.Node)
  /-- The current directory. -/
  workingPlace : FileSystem.Place
  /-- How many bytes the files can take besides those they hold; `none` if there is no limit. -/
  room : Option Nat := none

namespace FileSystem

/-- `fs.node? location` is what stands at `location`. -/
def node? (fs : FileSystem) (location : Location) : Option Node :=
  fs.nodes.lookup location

/-- `fs.nodeAt? place` is what a walk finds at `place`. A removed directory is a directory. -/
def nodeAt? (fs : FileSystem) : Place → Option Node
  | .present location => fs.node? location
  | .removed _ => some .directory

/-- `fs.erase location` is `fs` with nothing at `location`. -/
def erase (fs : FileSystem) (location : Location) : FileSystem :=
  { fs with nodes := fs.nodes.filter fun entry => entry.1 != location }

/-- `fs.set location node` is `fs` with `node` at `location`. -/
def set (fs : FileSystem) (location : Location) (node : Node) : FileSystem :=
  { fs with nodes := (location, node) :: (fs.erase location).nodes }

/-- A system of unlimited room that holds the two devices and an empty working directory
`/work`. -/
def fresh : FileSystem where
  nodes := [
    ([], .directory), (["dev"], .directory), (["null", "dev"], .nullDevice),
    (["full", "dev"], .fullDevice), (["work"], .directory)]
  workingPlace := .present ["work"]

/-- Leaving out the entries of one location does not change what is found at another. -/
theorem lookup_filter_of_ne {nodes : List (Location × Node)} {location other : Location}
    (h : other ≠ location) :
    (nodes.filter fun entry => entry.1 != location).lookup other = nodes.lookup other := by
  induction nodes with
  | nil => rfl
  | cons entry nodes ih =>
    obtain ⟨here, node⟩ := entry
    by_cases hhere : here = location
    · subst hhere
      have hother : (other == here) = false := by simpa using h
      simpa [List.lookup_cons, hother] using ih
    · simp [hhere, List.lookup_cons, ih]

/-- What was put at a location stands there. -/
@[simp]
theorem node?_set_self (fs : FileSystem) (location : Location) (node : Node) :
    (fs.set location node).node? location = some node := by
  simp [set, node?]

/-- Putting something at a location leaves every other location as it was. -/
theorem node?_set_of_ne (fs : FileSystem) {location other : Location} (node : Node)
    (h : other ≠ location) : (fs.set location node).node? other = fs.node? other := by
  have hother : (other == location) = false := by simpa using h
  simp only [set, erase, node?, List.lookup_cons, hother]
  exact lookup_filter_of_ne h

end FileSystem

end LintSarif
