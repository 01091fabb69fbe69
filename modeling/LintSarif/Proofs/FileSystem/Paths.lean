import LintSarif.FileSystem.Paths
import LintSarif.Proofs.FileSystem.Access

/-!
# Finding what a path names

Reading and writing find exactly the files that the relations of `LintSarif.FileSystem.Paths` say.
Read `readText_eq_ok_iff` and `target_eq_ok_iff_opens` first; both rest on `walk_eq_ok_iff`, which
follows a walk name by name.
-/

namespace LintSarif

/-- A path is taken apart exactly when it is usable. -/
theorem Route.ofPath_eq_ok_iff {route : Route} {path : String} :
    Route.ofPath path = .ok route ↔ route.Spelled path := by
  have hempty : path.toList.isEmpty = true ↔ path = "" := by
    rw [List.isEmpty_iff, String.toList_eq_nil_iff]
  unfold Route.ofPath
  dsimp only
  constructor
  · intro h
    split at h
    · contradiction
    · next hnul =>
        split at h
        · contradiction
        · next hne =>
            split at h
            · contradiction
            · next hshort =>
                cases h
                exact ⟨by simpa using hnul, mt hempty.2 hne, Nat.lt_of_not_le hshort,
                  beq_iff_eq, rfl, beq_iff_eq⟩
  · rintro ⟨hnul, hne, hshort, hroot, hnames, hslash⟩
    rw [if_neg (by simpa using hnul), if_neg (mt hempty.1 hne), if_neg (Nat.not_le_of_lt hshort)]
    obtain ⟨fromRoot, names, endsInSlash⟩ := route
    obtain rfl : names = _ := hnames
    rw [Except.ok.injEq, Route.mk.injEq]
    refine ⟨?_, rfl, ?_⟩
    · rw [Bool.eq_iff_iff, beq_iff_eq, hroot]
    · rw [Bool.eq_iff_iff, beq_iff_eq, hslash]

namespace FileSystem

variable {fs : FileSystem} {path text : String} {location : Location}

/-! ## Walks -/

/-- A name has a location in a directory that is there. -/
theorem childOf_eq_ok_iff {place : Place} {name : String} :
    childOf place name = .ok location ↔ ∃ parent, place = .present parent ∧
      name.utf8ByteSize ≤ Route.maxNameBytes ∧ location = name :: parent := by
  cases place with
  | removed parent => simp [childOf]
  | present parent =>
      show (if Route.maxNameBytes < name.utf8ByteSize then _ else _) = _ ↔ _
      by_cases hlong : Route.maxNameBytes < name.utf8ByteSize
      · simp [hlong, Nat.not_le_of_lt hlong]
      · simp [hlong, Nat.le_of_not_lt hlong, eq_comm]

/-- A walk leads where its names lead. -/
theorem walk_eq_ok_iff {start found : Place} {names : List String} :
    fs.walk start names = .ok found ↔ fs.Leads start names found := by
  constructor
  · intro h
    unfold walk at h
    -- Over any start, since each step starts where the one before it has led.
    induction names generalizing start with
    | nil =>
        cases h
        exact .nil _
    | cons name names ih =>
        rw [List.foldlM_cons] at h
        obtain ⟨next, hstep, h⟩ := bind_eq_ok_iff.1 h
        obtain ⟨hstart, hname⟩ := enter_eq_ok_iff.1 hstep
        have hrest := ih h
        split at hname
        · next hdot =>
            subst hdot hname
            exact .here _ _ _ hstart hrest
        · next hdot =>
            split at hname
            · next hup =>
                subst hup hname
                exact .up _ _ _ hstart hrest
            · next hup =>
                obtain ⟨location, hchild, hsome, rfl⟩ := hname
                obtain ⟨parent, rfl, hshort, rfl⟩ := childOf_eq_ok_iff.1 hchild
                exact .down _ _ _ _ hstart hdot hup hshort hsome hrest
  · intro h
    unfold walk
    induction h with
    | nil place => rfl
    | here place names found hplace _ ih =>
        rw [List.foldlM_cons]
        refine bind_eq_ok_iff.2 ⟨place, enter_eq_ok_iff.2 ⟨hplace, ?_⟩, ih⟩
        rw [if_pos rfl]
    | up place names found hplace _ ih =>
        rw [List.foldlM_cons]
        refine bind_eq_ok_iff.2 ⟨place.parent, enter_eq_ok_iff.2 ⟨hplace, ?_⟩, ih⟩
        rw [if_neg (by decide), if_pos rfl]
    | down location name names found hlocation hdot hup hshort hsome _ ih =>
        rw [List.foldlM_cons]
        refine bind_eq_ok_iff.2
          ⟨.present (name :: location), enter_eq_ok_iff.2 ⟨hlocation, ?_⟩, ih⟩
        rw [if_neg hdot, if_neg hup]
        exact ⟨_, childOf_eq_ok_iff.2 ⟨location, rfl, hshort, rfl⟩, hsome, rfl⟩

/-! ## Reading -/

/-- What it takes to read bytes. -/
theorem readBytes_eq_ok_iff {content : ByteArray} :
    fs.readBytes path = .ok content ↔ ∃ route place, Route.ofPath path = .ok route ∧
      fs.walk (fs.origin route) route.names = .ok place ∧ route.endsInSlash = false ∧
      (fs.nodeAt? place = some (.file content) ∨
        fs.nodeAt? place = some .nullDevice ∧ content = .empty) := by
  unfold readBytes
  constructor
  · intro h
    obtain ⟨route, hroute, h⟩ := bind_eq_ok_iff.1 h
    obtain ⟨place, hwalk, h⟩ := bind_eq_ok_iff.1 h
    split at h
    · contradiction
    · contradiction
    · next hnode =>
        split at h
        · contradiction
        · next hslash =>
            cases h
            exact ⟨route, place, hroute, hwalk, Bool.of_not_eq_true hslash, .inl hnode⟩
    · next hnode =>
        split at h
        · contradiction
        · next hslash =>
            cases h
            exact ⟨route, place, hroute, hwalk, Bool.of_not_eq_true hslash, .inr ⟨hnode, rfl⟩⟩
    · split at h
      · contradiction
      · contradiction
  · rintro ⟨route, place, hroute, hwalk, hslash, hnode⟩
    refine bind_eq_ok_iff.2 ⟨route, hroute, bind_eq_ok_iff.2 ⟨place, hwalk, ?_⟩⟩
    rcases hnode with hnode | ⟨hnode, rfl⟩
    all_goals
      rw [hnode, hslash]
      rfl

/-- Bytes are the UTF-8 form of at most one text. -/
theorem fromUTF8?_eq_some_iff {content : ByteArray} :
    String.fromUTF8? content = some text ↔ content = text.toUTF8 := by
  constructor
  · intro h
    unfold String.fromUTF8? at h
    split at h
    · cases h
      rfl
    · contradiction
  · rintro rfl
    exact fromUTF8?_toUTF8 text

/-- Reading a text is reading its bytes. -/
theorem readText_eq_ok_iff_readBytes :
    fs.readText path = .ok text ↔ fs.readBytes path = .ok text.toUTF8 := by
  unfold readText
  rw [bind_eq_ok_iff]
  constructor
  · rintro ⟨content, hread, h⟩
    split at h
    · next decoded hdecoded =>
        cases h
        rw [hread, fromUTF8?_eq_some_iff.1 hdecoded]
    · contradiction
  · intro hread
    refine ⟨_, hread, ?_⟩
    rw [fromUTF8?_toUTF8]
    rfl

/-- Reading gives the text that the path holds. -/
theorem readText_eq_ok_iff : fs.readText path = .ok text ↔ fs.HoldsText path text := by
  have hempty : text.toUTF8 = .empty ↔ text = "" := by
    rw [← String.toByteArray_inj]
    rfl
  rw [readText_eq_ok_iff_readBytes, readBytes_eq_ok_iff]
  unfold HoldsText
  simp only [Route.ofPath_eq_ok_iff, walk_eq_ok_iff, hempty]

/-- A path can be read as a text unless reading it fails. -/
theorem readable_iff : fs.Readable path ↔ ∃ text, fs.readText path = .ok text := by
  unfold Readable
  simp only [readText_eq_ok_iff]

/-! ## The current directory and writing -/

/-- The current directory can be found unless finding it fails. -/
theorem resolvable_iff : fs.Resolvable ↔ ∃ base, fs.currentDirectory = .ok base := by
  unfold Resolvable currentDirectory
  cases fs.workingPlace <;> simp

/-- A file is written where the path opens one. -/
theorem target_eq_ok_iff_opens : fs.target path = .ok location ↔ fs.Opens path location := by
  rw [target_eq_ok_iff]
  constructor
  · rintro ⟨route, name, place, hroute, hname, hwalk, hplace, hdots, hchild, hnode⟩
    obtain ⟨parent, rfl, hshort, rfl⟩ := childOf_eq_ok_iff.1 hchild
    obtain ⟨names, hnames⟩ := List.getLast?_eq_some_iff.1 hname
    rw [hnames, List.dropLast_concat] at hwalk
    obtain ⟨hdot, hup, hslash⟩ : name ≠ "." ∧ name ≠ ".." ∧ route.endsInSlash = false := by
      simpa using hdots
    exact ⟨route, names, name, parent, Route.ofPath_eq_ok_iff.1 hroute, hnames,
      walk_eq_ok_iff.1 hwalk, hplace, hdot, hup, hshort, hslash, rfl, hnode⟩
  · rintro ⟨route, names, name, parent, hroute, hnames, hleads, hparent, hdot, hup, hshort,
      hslash, rfl, hnode⟩
    refine ⟨route, name, .present parent, Route.ofPath_eq_ok_iff.2 hroute, ?_, ?_, hparent, ?_,
      childOf_eq_ok_iff.2 ⟨parent, rfl, hshort, rfl⟩, hnode⟩
    · rw [hnames, List.getLast?_concat]
    · rw [hnames, List.dropLast_concat]
      exact walk_eq_ok_iff.2 hleads
    · simp [hdot, hup, hslash]

/-- A path can be written to unless looking for its file fails. -/
theorem writable_iff : fs.Writable path ↔ ∃ location, fs.target path = .ok location := by
  unfold Writable
  simp only [target_eq_ok_iff_opens]

/-! ## Room -/

/-- Where a text is read, there is room for every text that is no longer. -/
theorem hasRoom_of_readText {old : String} (htarget : fs.target path = .ok location)
    (hread : fs.readText path = .ok old) (hsize : text.toUTF8.size ≤ old.toUTF8.size) :
    fs.HasRoom location text := by
  rw [readText_eq_ok_iff_readBytes, readBytes_of_target htarget] at hread
  intro limit hlimit
  unfold capacity at hlimit
  cases hnode : fs.node? location with
  | none =>
      rw [hnode] at hread
      contradiction
  | some node =>
      rw [hnode] at hread hlimit
      cases node with
      | directory => contradiction
      | file content =>
          obtain rfl : content = old.toUTF8 := Except.ok.inj hread
          obtain ⟨room, -, rfl⟩ := Option.map_eq_some_iff.1 hlimit
          omega
      | nullDevice => contradiction
      | fullDevice => contradiction

end FileSystem

end LintSarif
