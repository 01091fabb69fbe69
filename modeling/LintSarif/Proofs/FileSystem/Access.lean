import LintSarif.FileSystem.Operations

/-!
# Where a path leads

A file that is written and a file that is read are found in the same way: `target_eq_ok_iff` says
what it takes to find a file for writing, and `readBytes_of_target` what is read there. A change
that keeps all directories keeps all walks over them (`Keeps.walk`), so the same paths lead to a
file before and after it was written, however they are spelled.
-/

namespace LintSarif

/-- A sequence of two steps succeeds when both do. -/
theorem bind_eq_ok_iff {ε α β : Type} {x : Except ε α} {f : α → Except ε β} {b : β} :
    x >>= f = .ok b ↔ ∃ a, x = .ok a ∧ f a = .ok b := by
  cases x with
  | error e => simp [bind, Except.bind]
  | ok a => simp [bind, Except.bind]

namespace FileSystem

variable {fs next : FileSystem} {path text : String} {location : Location}

/-! ## Walking -/

/-- What follows a check for a directory succeeds in a directory only. -/
theorem requireDirectory_bind_eq_ok_iff {α : Type} {place : Place} {f : Unit → Except FileError α}
    {a : α} : fs.requireDirectory place >>= f = .ok a ↔
      fs.nodeAt? place = some .directory ∧ f () = .ok a := by
  unfold requireDirectory
  split <;> simp_all [bind, Except.bind]

/-- A step of a walk leaves a directory, for itself, for its parent or for what stands in it. -/
theorem enter_eq_ok_iff {place found : Place} {name : String} :
    fs.enter place name = .ok found ↔ fs.nodeAt? place = some .directory ∧
      if name = "." then place = found
      else if name = ".." then place.parent = found
      else ∃ location, childOf place name = .ok location ∧ (fs.node? location).isSome ∧
        .present location = found := by
  unfold enter
  rw [requireDirectory_bind_eq_ok_iff]
  refine and_congr_right fun _ => ?_
  split
  · simp [pure, Except.pure]
  split
  · simp [pure, Except.pure]
  rw [bind_eq_ok_iff]
  refine exists_congr fun location => and_congr_right fun _ => ?_
  split
  · next h => simp [h, pure, Except.pure]
  · next h => simp [h, throw, throwThe, MonadExceptOf.throw]

/-- What it takes to find a file for writing: the path names a file, its directory is there, and no
directory has its name. -/
theorem target_eq_ok_iff :
    fs.target path = .ok location ↔ ∃ route name place,
      Route.ofPath path = .ok route ∧ route.names.getLast? = some name ∧
      fs.walk (fs.origin route) route.names.dropLast = .ok place ∧
      fs.nodeAt? place = some .directory ∧
      ¬ (name = "." ∨ name = ".." ∨ route.endsInSlash = true) ∧
      childOf place name = .ok location ∧ fs.node? location ≠ some .directory := by
  unfold target
  constructor
  · intro h
    obtain ⟨route, hroute, h⟩ := bind_eq_ok_iff.1 h
    split at h
    · contradiction
    · next name hname =>
        obtain ⟨place, hwalk, h⟩ := bind_eq_ok_iff.1 h
        obtain ⟨hplace, h⟩ := requireDirectory_bind_eq_ok_iff.1 h
        dsimp only at h
        split at h
        · contradiction
        · next hdots =>
            obtain ⟨found, hfound, h⟩ := bind_eq_ok_iff.1 h
            split at h
            · contradiction
            · next hnode =>
                cases h
                exact ⟨route, name, place, hroute, hname, hwalk, hplace, hdots, hfound, hnode⟩
  · rintro ⟨route, name, place, hroute, hname, hwalk, hplace, hdots, hfound, hnode⟩
    refine bind_eq_ok_iff.2 ⟨route, hroute, ?_⟩
    rw [hname]
    refine bind_eq_ok_iff.2 ⟨place, hwalk, requireDirectory_bind_eq_ok_iff.2 ⟨hplace, ?_⟩⟩
    dsimp only
    rw [if_neg hdots]
    refine bind_eq_ok_iff.2 ⟨location, hfound, ?_⟩
    rw [if_neg hnode]
    rfl

/-- `fs.Keeps next` holds when every directory of `fs` is one of `next`, something stands in `next`
wherever something stands in `fs`, and the process works in the same place. -/
structure Keeps (fs next : FileSystem) : Prop where
  directory : ∀ location, fs.node? location = some .directory →
    next.node? location = some .directory
  present : ∀ location, (fs.node? location).isSome → (next.node? location).isSome
  workingPlace : next.workingPlace = fs.workingPlace

theorem Keeps.nodeAt? (h : fs.Keeps next) {place : Place}
    (hplace : fs.nodeAt? place = some .directory) : next.nodeAt? place = some .directory := by
  cases place with
  | present location => exact h.directory location hplace
  | removed parent => rfl

/-- A step of a walk stays possible. -/
theorem Keeps.enter (h : fs.Keeps next) {place found : Place} {name : String}
    (henter : fs.enter place name = .ok found) : next.enter place name = .ok found := by
  obtain ⟨hplace, hname⟩ := enter_eq_ok_iff.1 henter
  refine enter_eq_ok_iff.2 ⟨h.nodeAt? hplace, ?_⟩
  split at hname
  · next hdot => rwa [if_pos hdot]
  · next hdot =>
      rw [if_neg hdot]
      split at hname
      · next hdots => rwa [if_pos hdots]
      · next hdots =>
          rw [if_neg hdots]
          obtain ⟨location, hchild, hsome, hfound⟩ := hname
          exact ⟨location, hchild, h.present location hsome, hfound⟩

/-- A walk stays possible. -/
theorem Keeps.walk (h : fs.Keeps next) {place found : Place} {names : List String}
    (hwalk : fs.walk place names = .ok found) : next.walk place names = .ok found := by
  unfold FileSystem.walk at hwalk ⊢
  -- Over any start, since each step starts where the one before it has led.
  induction names generalizing place with
  | nil => exact hwalk
  | cons name names ih =>
      rw [List.foldlM_cons] at hwalk ⊢
      obtain ⟨step, hstep, hwalk⟩ := bind_eq_ok_iff.1 hwalk
      exact bind_eq_ok_iff.2 ⟨step, h.enter hstep, ih hwalk⟩

/-- A path to a file leads there as long as no directory takes its place. -/
theorem Keeps.target (h : fs.Keeps next) (htarget : fs.target path = .ok location)
    (hnode : next.node? location ≠ some .directory) : next.target path = .ok location := by
  obtain ⟨route, name, place, hroute, hname, hwalk, hplace, hdots, hchild, -⟩ :=
    target_eq_ok_iff.1 htarget
  have horigin : next.origin route = fs.origin route := by
    unfold origin
    rw [h.workingPlace]
  refine target_eq_ok_iff.2 ⟨route, name, place, hroute, hname, ?_, h.nodeAt? hplace, hdots,
    hchild, hnode⟩
  rw [horigin]
  exact h.walk hwalk

/-! ## Reading -/

/-- The last step of a walk. -/
theorem walk_concat {start place : Place} {names : List String}
    (h : fs.walk start names = .ok place) (name : String) :
    fs.walk start (names ++ [name]) = fs.enter place name := by
  unfold walk at h ⊢
  rw [List.foldlM_append, h]
  show (fs.enter place name >>= pure) = _
  rw [bind_pure]

/-- A step to a name finds what stands there. -/
theorem enter_child {place : Place} {name : String} (hplace : fs.nodeAt? place = some .directory)
    (hdot : name ≠ ".") (hup : name ≠ "..") (hchild : childOf place name = .ok location) :
    fs.enter place name =
      if (fs.node? location).isSome then .ok (.present location) else .error .notFound := by
  unfold enter requireDirectory
  rw [hplace, hchild, if_neg hdot, if_neg hup]
  rfl

/-- What is read where a file could be written. -/
theorem readBytes_of_target (h : fs.target path = .ok location) :
    fs.readBytes path =
      match fs.node? location with
      | some (.file content) => .ok content
      | some .nullDevice => .ok .empty
      | some .fullDevice => .error (.other "Cannot allocate memory" 12)
      | _ => .error .notFound := by
  obtain ⟨route, name, place, hroute, hname, hwalk, hplace, hdots, hchild, hnode⟩ :=
    target_eq_ok_iff.1 h
  obtain ⟨hdot, hup, hslash⟩ : name ≠ "." ∧ name ≠ ".." ∧ route.endsInSlash = false := by
    simpa using hdots
  -- The walk to the directory is that of the write; reading takes one step more.
  obtain ⟨names, hnames⟩ := List.getLast?_eq_some_iff.1 hname
  rw [hnames, List.dropLast_concat] at hwalk
  unfold readBytes
  rw [hroute]
  show (fs.walk (fs.origin route) route.names >>= _) = _
  rw [hnames, walk_concat hwalk, enter_child hplace hdot hup hchild]
  cases hfound : fs.node? location with
  | none => rfl
  | some node =>
      have hat : fs.nodeAt? (.present location) = some node := hfound
      simp only [Option.isSome_some, if_true, bind, Except.bind, hat, hslash]
      cases node with
      | directory => contradiction
      | file content => rfl
      | nullDevice => rfl
      | fullDevice => rfl

/-- The UTF-8 form of a text is that of this text. -/
theorem fromUTF8?_toUTF8 (text : String) : String.fromUTF8? text.toUTF8 = some text := by
  unfold String.fromUTF8?
  exact dif_pos text.isValidUTF8

/-- What a text was written to is read back as that text. -/
theorem readText_of_target (h : fs.target path = .ok location)
    (hnode : fs.node? location = some (.file text.toUTF8)) : fs.readText path = .ok text := by
  unfold readText
  refine bind_eq_ok_iff.2 ⟨text.toUTF8, ?_, ?_⟩
  · rw [readBytes_of_target h, hnode]
  · rw [fromUTF8?_toUTF8]
    rfl

end FileSystem

end LintSarif
