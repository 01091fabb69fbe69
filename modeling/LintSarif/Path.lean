/-!
# File paths

A path is text whose names are separated by slashes. `resolve path base` gives the place that
`path` names when it is read in the directory `base`, by looking at the text alone: the components
of the joined path are followed one by one, each from the path resolved so far. Nothing needs to
exist, and either path may be relative or empty.

The functions on `List Char` do the work; `absolutize` is the one on `String`.
-/

namespace LintSarif.Path

/-- `isAbsolute path` holds when `path` starts at the root. -/
def isAbsolute (path : List Char) : Bool :=
  path.head? == some '/'

/-- `components path` are the names in `path`. Repeated and final slashes name nothing, and
neither does a single dot. -/
def components (path : List Char) : List (List Char) :=
  (path.splitOn '/').filter fun name => !name.isEmpty && name != ['.']

/-- `join base path` is the text that names `path` from where `base` is: `path` itself when it is
absolute, and otherwise `path` after `base` with a slash between them where one is needed. -/
def join (base path : List Char) : List Char :=
  if isAbsolute path then path
  else if base.isEmpty || base.getLast? == some '/' then base ++ path
  else base ++ '/' :: path

/-- `parent path` is `path` without its last name. The root is its own parent, and the parent of a
single relative name is empty. -/
def parent (path : List Char) : List Char :=
  match path.reverse.dropWhile (· ≠ '/') with
  | [] => []
  | ['/'] => ['/']
  | _ :: above => above.reverse

/-- `enter path name` follows one component from `path`: two dots lead to the parent, and any
other name leads below `path`. -/
def enter (path name : List Char) : List Char :=
  if name = ['.', '.'] then parent path else join path name

/-- `resolve path base` follows the components of `path` read in `base`, from the root when one of
the two is absolute and from the empty path otherwise. -/
def resolve (path base : List Char) : List Char :=
  let joined := join base path
  (components joined).foldl enter (if isAbsolute joined then ['/'] else [])

/-- `absolutize path base` is `resolve` on strings. -/
def absolutize (path base : String) : String :=
  String.ofList (resolve path.toList base.toList)

/-- An absolute path is the same from everywhere. -/
@[simp]
theorem join_of_isAbsolute {path : List Char} (h : isAbsolute path = true) (base : List Char) :
    join base path = path := by
  simp [join, h]

@[simp]
theorem join_nil (path : List Char) : join [] path = path := by
  simp [join]

example : resolve "./a/../b/./c.cpp".toList "/work".toList = "/work/b/c.cpp".toList := by cbv

example : resolve "../../x.c".toList "/".toList = "/x.c".toList := by cbv

example : resolve "..".toList "a".toList = [] := by cbv

end LintSarif.Path
