import LintSarif.FileSystem.Walk

/-!
# What a path names

What it takes for a path to name a text that can be read or a file that can be written, said of the
file system as it stands and not of an order of steps. `Leads` follows the names of a path from
directory to directory; `HoldsText` and `Opens` say what has to be found at the end. A file that can
be opened for writing need not have room for what is written to it, which is `HasRoom`.
-/

namespace LintSarif

/-- `route.Spelled path` holds when `path` is a usable path and `route` are its parts. -/
structure Route.Spelled (route : Route) (path : String) : Prop where
  noNul : '\x00' ∉ path.toList
  nonempty : path ≠ ""
  short : path.utf8ByteSize < maxPathBytes
  fromRoot : route.fromRoot = true ↔ path.toList.head? = some '/'
  names : route.names =
    ((path.toList.splitOn '/').filter fun name => !name.isEmpty).map String.ofList
  endsInSlash : route.endsInSlash = true ↔ path.toList.getLast? = some '/'

namespace FileSystem

/-- `fs.Leads start names place` holds when `names` lead from `start` to `place`, each of them from
a directory. -/
inductive Leads (fs : FileSystem) : Place → List String → Place → Prop where
  | nil (place : Place) : Leads fs place [] place
  | here (place : Place) (names : List String) (found : Place) :
      fs.nodeAt? place = some .directory → Leads fs place names found →
      Leads fs place ("." :: names) found
  | up (place : Place) (names : List String) (found : Place) :
      fs.nodeAt? place = some .directory → Leads fs place.parent names found →
      Leads fs place (".." :: names) found
  | down (location : Location) (name : String) (names : List String) (found : Place) :
      fs.node? location = some .directory → name ≠ "." → name ≠ ".." →
      name.utf8ByteSize ≤ Route.maxNameBytes → (fs.node? (name :: location)).isSome →
      Leads fs (.present (name :: location)) names found →
      Leads fs (.present location) (name :: names) found

/-- `fs.HoldsText path text` holds when `path` names a file whose bytes are the UTF-8 form of
`text`. The null device holds the empty text. -/
def HoldsText (fs : FileSystem) (path text : String) : Prop :=
  ∃ route place, route.Spelled path ∧ fs.Leads (fs.origin route) route.names place ∧
    route.endsInSlash = false ∧
    (fs.nodeAt? place = some (.file text.toUTF8) ∨
      fs.nodeAt? place = some .nullDevice ∧ text = "")

/-- `fs.Opens path location` holds when `path` names the file at `location`, which need not be
there, in a directory that is. -/
def Opens (fs : FileSystem) (path : String) (location : Location) : Prop :=
  ∃ route names name parent, route.Spelled path ∧ route.names = names ++ [name] ∧
    fs.Leads (fs.origin route) names (.present parent) ∧ fs.node? parent = some .directory ∧
    name ≠ "." ∧ name ≠ ".." ∧ name.utf8ByteSize ≤ Route.maxNameBytes ∧
    route.endsInSlash = false ∧ location = name :: parent ∧ fs.node? location ≠ some .directory

/-- The file at `path` can be read as a text. -/
def Readable (fs : FileSystem) (path : String) : Prop :=
  ∃ text, fs.HoldsText path text

/-- The current directory can be found. -/
def Resolvable (fs : FileSystem) : Prop :=
  ∃ location, fs.workingPlace = .present location

/-- The file at `path` can be opened for writing. -/
def Writable (fs : FileSystem) (path : String) : Prop :=
  ∃ location, fs.Opens path location

/-- `fs.capacity location` is the number of bytes that the file at `location` can hold when it is
created or overwritten, or `none` if there is no limit. An old file gives its own room free. -/
def capacity (fs : FileSystem) (location : Location) : Option Nat :=
  match fs.node? location with
  | some (.file old) => fs.room.map fun room => room + old.size
  | some .nullDevice => none
  | some .fullDevice => some 0
  | _ => fs.room

/-- `fs.HasRoom location text` holds when the file at `location` can hold all of `text`. -/
def HasRoom (fs : FileSystem) (location : Location) (text : String) : Prop :=
  ∀ capacity, fs.capacity location = some capacity → text.toUTF8.size ≤ capacity

end FileSystem

end LintSarif
