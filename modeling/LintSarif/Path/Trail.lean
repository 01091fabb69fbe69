import LintSarif.Path

/-!
# Paths as stacks of names

Another way to resolve a path, which never looks at the text of the path resolved so far. A path is
cut at its slashes and its parts are entered one after the other on a stack: a name goes on top, two
dots take the top name away if there is one, and every other part changes nothing. A trail is such a
stack, and it can hold names only.

`IsNormal` says of the text of a path, without any stack, that it says nothing twice and nothing in
vain.
-/

namespace LintSarif.Path

/-- `IsName part` holds when `part` names something in a directory. -/
structure IsName (part : List Char) : Prop where
  ne_nil : part ≠ []
  ne_dot : part ≠ ['.']
  ne_dots : part ≠ ['.', '.']
  noSlash : '/' ∉ part

instance (part : List Char) : Decidable (IsName part) :=
  decidable_of_iff (part ≠ [] ∧ part ≠ ['.'] ∧ part ≠ ['.', '.'] ∧ '/' ∉ part)
    ⟨fun ⟨hnil, hdot, hdots, hslash⟩ => ⟨hnil, hdot, hdots, hslash⟩,
      fun ⟨hnil, hdot, hdots, hslash⟩ => ⟨hnil, hdot, hdots, hslash⟩⟩

/-- The names on the way to a place, the innermost last, and whether the way starts at the root. -/
@[ext]
structure Trail where
  rooted : Bool
  names : List (List Char)
  isName : ∀ name ∈ names, IsName name

namespace Trail

/-- `start rooted` is the trail of no names. -/
def start (rooted : Bool) : Trail where
  rooted := rooted
  names := []
  isName := List.forall_mem_nil _

/-- `t.push name` goes on from `t` to `name`. -/
def push (t : Trail) (name : List Char) (h : IsName name) : Trail where
  rooted := t.rooted
  names := t.names ++ [name]
  isName := List.forall_mem_append.2 ⟨t.isName, List.forall_mem_singleton.2 h⟩

/-- `t.pop` is `t` without its last name. A trail of no names stays as it is. -/
def pop (t : Trail) : Trail where
  rooted := t.rooted
  names := t.names.dropLast
  isName := fun name h => t.isName name (List.dropLast_subset t.names h)

/-- `t.enter part` goes on from `t` to where `part` leads. The empty part and a single dot lead
nowhere else. -/
def enter (t : Trail) (part : List Char) : Trail :=
  if h : IsName part then t.push part h
  else if part = ['.', '.'] then t.pop
  else t

/-- `t.follow path` enters the parts of `path` between slashes from left to right. -/
def follow (t : Trail) (path : List Char) : Trail :=
  (path.splitOn '/').foldl enter t

/-- `ofPath path` is the trail that `path` leads along, from the root when `path` is absolute. -/
def ofPath (path : List Char) : Trail :=
  (start (isAbsolute path)).follow path

/-- `t.toPath` is the text of `t`: its names with a slash between any two of them, and a slash in
front of them when it starts at the root. -/
def toPath (t : Trail) : List Char :=
  (if t.rooted then ['/'] else []) ++ ['/'].intercalate t.names

@[simp]
theorem rooted_push (t : Trail) {name : List Char} (h : IsName name) :
    (t.push name h).rooted = t.rooted := rfl

@[simp]
theorem rooted_pop (t : Trail) : t.pop.rooted = t.rooted := rfl

@[simp]
theorem pop_push (t : Trail) {name : List Char} (h : IsName name) : (t.push name h).pop = t := by
  ext1
  · rfl
  · exact List.dropLast_concat

theorem enter_of_isName (t : Trail) {name : List Char} (h : IsName name) :
    t.enter name = t.push name h := by
  simp [enter, h]

@[simp]
theorem enter_nil (t : Trail) : t.enter [] = t := by
  have h : ¬ IsName [] := fun h => h.ne_nil rfl
  simp [enter, h]

@[simp]
theorem enter_dot (t : Trail) : t.enter ['.'] = t := by
  have h : ¬ IsName ['.'] := fun h => h.ne_dot rfl
  simp [enter, h]

@[simp]
theorem enter_dots (t : Trail) : t.enter ['.', '.'] = t.pop := by
  have h : ¬ IsName ['.', '.'] := fun h => h.ne_dots rfl
  simp [enter, h]

/-- A path without a slash is a single part. -/
theorem follow_of_noSlash (t : Trail) {part : List Char} (h : '/' ∉ part) :
    t.follow part = t.enter part := by
  rw [follow, List.splitOn_eq_singleton h]
  rfl

@[simp]
theorem follow_nil (t : Trail) : t.follow [] = t := by
  rw [follow_of_noSlash t List.not_mem_nil, enter_nil]

/-- What stands before a slash is followed first, and then what stands behind it. -/
@[simp]
theorem follow_append_cons (t : Trail) (before after : List Char) :
    t.follow (before ++ '/' :: after) = (t.follow before).follow after := by
  simp only [follow, List.splitOn_append_cons_self, List.foldl_append]

example : (ofPath "/../a/./b//..".toList).toPath = "/a".toList := by decide

example : (ofPath "a/../..".toList).toPath = [] := by decide

end Trail

/-- `below path` is `path` without the slash that it starts with when it is absolute. -/
def below (path : List Char) : List Char :=
  if isAbsolute path then path.tail else path

/-- `parts path` is what stands between the slashes of `path` below the root. The root has no parts,
and neither has the empty path. -/
def parts (path : List Char) : List (List Char) :=
  if below path = [] then [] else (below path).splitOn '/'

/-- `IsNormal path` holds when all parts of `path` are names, no two slashes follow each other and
only the root ends with a slash. -/
structure IsNormal (path : List Char) : Prop where
  isName : ∀ part ∈ parts path, IsName part
  noRepeat : ¬ ['/', '/'] <:+: path
  eq_root : path.getLast? = some '/' → path = ['/']

/-- `upward n path` is `path` read `n` directories higher. -/
def upward (n : Nat) (path : List Char) : List Char :=
  (List.replicate n ['.', '.', '/']).flatten ++ path

end LintSarif.Path
