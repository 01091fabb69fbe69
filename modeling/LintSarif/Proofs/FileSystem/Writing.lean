import LintSarif.FileSystem.Paths
import LintSarif.Proofs.FileSystem.Access

/-!
# What a write does

A write empties its file and then offers its bytes as often as some of them are taken. What one
offer does is `Receives`, and so is what a run of offers does (`receives_writeAll`): the bytes that
were taken stand in the file, and none of them is left over unless the room is used up. Read
`writeText_of_target` first: where there is room for a text, all of it is written, and where there
is not, the write fails and the file holds as much of the text as it can.
-/

namespace LintSarif.FileSystem

variable {fs mid next : FileSystem} {path text : String} {location : Location}
  {bytes more : ByteArray}

/-! ## One location changes -/

/-- `fs.SameBut location next` holds when `next` is `fs` but for what stands at `location`, which is
no directory unless it was one. -/
structure SameBut (fs : FileSystem) (location : Location) (next : FileSystem) : Prop where
  others : ∀ other, other ≠ location → next.node? other = fs.node? other
  directories : ∀ place, next.node? place = some .directory ↔ fs.node? place = some .directory
  workingPlace : next.workingPlace = fs.workingPlace

theorem SameBut.refl (fs : FileSystem) (location : Location) : fs.SameBut location fs :=
  ⟨fun _ _ => rfl, fun _ => Iff.rfl, rfl⟩

theorem SameBut.trans (h : fs.SameBut location mid) (h' : mid.SameBut location next) :
    fs.SameBut location next where
  others other hother := (h'.others other hother).trans (h.others other hother)
  directories place := (h'.directories place).trans (h.directories place)
  workingPlace := h'.workingPlace.trans h.workingPlace

/-- A file that is put where no directory stands changes its location, whatever room is left. -/
theorem sameBut_put (h : fs.node? location ≠ some .directory) (content : ByteArray)
    (room : Option Nat) :
    fs.SameBut location { fs.set location (.file content) with room := room } where
  others other hother := node?_set_of_ne fs _ hother
  directories place := by
    show (fs.set location (.file content)).node? place = _ ↔ _
    by_cases hplace : place = location
    · simp [hplace, h]
    · rw [node?_set_of_ne _ _ hplace]
  workingPlace := rfl

/-- All walks stay possible as long as the location does not become empty. -/
theorem SameBut.keeps (h : fs.SameBut location next) (hsome : (next.node? location).isSome) :
    fs.Keeps next where
  directory place := (h.directories place).2
  present place hplace := by
    by_cases heq : place = location
    · rwa [heq]
    · rwa [h.others place heq]
  workingPlace := h.workingPlace

/-! ## Truncating -/

/-- A device is not truncated. -/
theorem truncate_of_device
    (h : fs.node? location = some .nullDevice ∨ fs.node? location = some .fullDevice) :
    fs.truncate location = fs := by
  unfold truncate
  rcases h with h | h <;> rw [h]

theorem sameBut_truncate (h : fs.node? location ≠ some .directory) :
    fs.SameBut location (fs.truncate location) := by
  unfold truncate
  split
  · exact sameBut_put h _ fs.room
  · exact sameBut_put h _ _
  · exact .refl _ _

/-- A file that is truncated, and one that is made, is empty. -/
theorem node?_truncate (hdirectory : fs.node? location ≠ some .directory)
    (hnull : fs.node? location ≠ some .nullDevice) (hfull : fs.node? location ≠ some .fullDevice) :
    (fs.truncate location).node? location = some (.file .empty) := by
  unfold truncate
  cases hnode : fs.node? location with
  | none => exact node?_set_self _ _ _
  | some node =>
      cases node with
      | directory => contradiction
      | file old => exact node?_set_self fs _ _
      | nullDevice => contradiction
      | fullDevice => contradiction

/-! ## Room -/

theorem roomAt_of_file {content : ByteArray} (h : fs.node? location = some (.file content)) :
    fs.roomAt location = fs.room := by
  unfold roomAt
  rw [h]

/-- Where there is no file, either everything can be added or nothing. -/
theorem roomAt_of_not_file (h : ∀ content, fs.node? location ≠ some (.file content)) :
    fs.roomAt location = none ∨ fs.roomAt location = some 0 := by
  unfold roomAt
  split
  · next content hcontent => exact absurd hcontent (h content)
  · exact .inl rfl
  · exact .inr rfl

/-- A truncated file can take as much as the file can hold. -/
theorem roomAt_truncate (h : fs.node? location ≠ some .directory) :
    (fs.truncate location).roomAt location = fs.capacity location := by
  cases hnode : fs.node? location with
  | none =>
      have hempty := node?_truncate h (by simp [hnode]) (by simp [hnode])
      rw [roomAt_of_file hempty, truncate, capacity, hnode]
      rfl
  | some node =>
      cases node with
      | directory => contradiction
      | file old =>
          have hempty := node?_truncate h (by simp [hnode]) (by simp [hnode])
          rw [roomAt_of_file hempty, truncate, capacity, hnode]
      | nullDevice => rw [truncate_of_device (.inl hnode), roomAt, capacity, hnode]
      | fullDevice => rw [truncate_of_device (.inr hnode), roomAt, capacity, hnode]

/-! ## Offering bytes -/

/-- `fs.Receives location bytes next` holds when `next` is `fs` after `bytes` were taken at
`location`, where there was room for them. They stand at the end of the file, which leaves so much
less room; what is no file stays as it was. -/
structure Receives (fs : FileSystem) (location : Location) (bytes : ByteArray) (next : FileSystem) :
    Prop extends SameBut fs location next where
  fits : ∀ room, fs.roomAt location = some room → bytes.size ≤ room
  roomAt : next.roomAt location = (fs.roomAt location).map fun room => room - bytes.size
  content : ∀ content, fs.node? location = some (.file content) →
    next.node? location = some (.file (content ++ bytes))
  device : (∀ content, fs.node? location ≠ some (.file content)) → next = fs

theorem Receives.refl (fs : FileSystem) (location : Location) :
    fs.Receives location .empty fs where
  toSameBut := .refl fs location
  fits room _ := Nat.zero_le room
  roomAt := by simp
  content content h := by rw [h, ByteArray.append_empty]
  device _ := rfl

/-- What is taken in two offers is taken one after the other. -/
theorem Receives.trans (h : fs.Receives location bytes mid) (h' : mid.Receives location more next) :
    fs.Receives location (bytes ++ more) next where
  toSameBut := h.toSameBut.trans h'.toSameBut
  fits room hroom := by
    have hbytes := h.fits room hroom
    have hmore := h'.fits (room - bytes.size) (by rw [h.roomAt, hroom, Option.map_some])
    rw [ByteArray.size_append]
    omega
  roomAt := by
    rw [h'.roomAt, h.roomAt, Option.map_map, ByteArray.size_append]
    exact congrArg (Option.map · _) (funext fun room => Nat.sub_sub _ _ _)
  content content hcontent := by
    rw [h'.content _ (h.content content hcontent), ByteArray.append_assoc]
  device hdevice := by
    obtain rfl := h.device hdevice
    exact h'.device hdevice

/-- A file that is extended by no more than there is room for has received that. -/
theorem receives_extend (hfits : ∀ room, fs.roomAt location = some room → bytes.size ≤ room) :
    fs.Receives location bytes (fs.extend location bytes) := by
  by_cases hfile : ∃ content, fs.node? location = some (.file content)
  · obtain ⟨content, hcontent⟩ := hfile
    unfold extend
    rw [hcontent]
    refine ⟨sameBut_put (by simp [hcontent]) _ _, hfits, ?_, fun other hother => ?_,
      fun hnone => absurd hcontent (hnone content)⟩
    · rw [roomAt_of_file hcontent]
      exact roomAt_of_file (node?_set_self fs _ _)
    · obtain rfl : content = other := by
        simpa [hcontent] using hother
      exact node?_set_self fs _ _
  · rw [not_exists] at hfile
    have hsame : fs.extend location bytes = fs := by
      unfold extend
      split
      · next content hcontent => exact absurd hcontent (hfile content)
      · rfl
    rw [hsame]
    refine ⟨.refl _ _, hfits, ?_, fun content hcontent => absurd hcontent (hfile content),
      fun _ => rfl⟩
    rcases roomAt_of_not_file hfile with hroom | hroom
    · rw [hroom, Option.map_none]
    · rw [hroom, Option.map_some, Nat.zero_sub]

/-- An offer of which something is taken: these bytes are received. -/
theorem receives_write {taken : Nat} (h : fs.write location bytes = .ok (taken, next)) :
    fs.Receives location (bytes.extract 0 taken) next := by
  obtain ⟨⟨-, -, hfits⟩, rfl⟩ := taken_of_write h
  refine receives_extend fun room hroom => ?_
  have htaken := hfits room hroom
  rw [ByteArray.size_extract]
  omega

/-- An offer of which nothing is taken fails for want of room. -/
theorem roomAt_of_write_error {cause : FileError} (hsize : bytes.size ≠ 0)
    (h : fs.write location bytes = .error cause) :
    cause = .storageFull ∧ fs.roomAt location = some 0 := by
  unfold write at h
  dsimp only at h
  split at h
  · next hnothing =>
      cases h
      refine ⟨rfl, ?_⟩
      cases hroom : fs.roomAt location with
      | none =>
          rw [hroom] at hnothing
          exact absurd hnothing hsize
      | some room =>
          rw [hroom] at hnothing
          have hzero : min bytes.size room = 0 := hnothing
          obtain rfl : room = 0 := by omega
          rfl
  · contradiction

/-- Of the bytes of a write those up to some place are received. They are all of them when the write
succeeds; when it fails, some are left over and the room is used up by those received. -/
theorem receives_writeAll (fs : FileSystem) (location : Location) (bytes : ByteArray) :
    let outcome := fs.writeAll location bytes
    ∃ stored rest, bytes = stored ++ rest ∧ fs.Receives location stored outcome.2 ∧
      (outcome.1 = .ok () ∧ rest = .empty ∨
        outcome.1 = .error .storageFull ∧ rest ≠ .empty ∧
          fs.roomAt location = some stored.size) := by
  dsimp only
  fun_induction writeAll fs location bytes with
  | case1 fs bytes hsize =>
      refine ⟨.empty, .empty, ?_, .refl _ _, .inl ⟨rfl, rfl⟩⟩
      rw [ByteArray.append_empty]
      exact ByteArray.size_eq_zero_iff.1 hsize
  | case2 fs bytes hsize cause hwrite =>
      obtain ⟨rfl, hroom⟩ := roomAt_of_write_error hsize hwrite
      refine ⟨.empty, bytes, ByteArray.empty_append.symm, .refl _ _, .inr ⟨rfl, ?_, hroom⟩⟩
      exact mt ByteArray.size_eq_zero_iff.2 hsize
  | case3 fs bytes hsize taken next hwrite ih =>
      obtain ⟨⟨-, htaken, -⟩, -⟩ := taken_of_write hwrite
      have hfirst := receives_write hwrite
      obtain ⟨stored, rest, hsplit, hreceives, hend⟩ := ih
      have hbytes : bytes = bytes.extract 0 taken ++ stored ++ rest := by
        rw [ByteArray.append_assoc, ← hsplit, ByteArray.extract_append_extract, Nat.zero_min,
          Nat.max_eq_right htaken, ByteArray.extract_zero_size]
      refine ⟨bytes.extract 0 taken ++ stored, rest, hbytes, hfirst.trans hreceives, ?_⟩
      refine hend.imp id fun ⟨hfull, hrest, hroom⟩ => ⟨hfull, hrest, ?_⟩
      -- The room before the first offer is what it took and what was left for the others.
      rw [hfirst.roomAt] at hroom
      obtain ⟨room, hbefore, hafter⟩ := Option.map_eq_some_iff.1 hroom
      have hfits := hfirst.fits room hbefore
      rw [hbefore, ByteArray.size_append]
      exact congrArg some (by omega)

/-! ## A whole write -/

/-- `fs.Overwritten location stored next` holds when `next` is `fs` with a file that holds just
`stored` at `location`, unless a device stands there. -/
structure Overwritten (fs : FileSystem) (location : Location) (stored : ByteArray)
    (next : FileSystem) : Prop extends SameBut fs location next where
  device : fs.node? location = some .nullDevice ∨ fs.node? location = some .fullDevice → next = fs
  content : fs.node? location ≠ some .nullDevice → fs.node? location ≠ some .fullDevice →
    next.node? location = some (.file stored)

/-- `fs.Written location text next` holds when `next` is `fs` after `text` was written to the file
at `location`, which is a device that swallows it or holds nothing else afterwards. -/
structure Written (fs : FileSystem) (location : Location) (text : String) (next : FileSystem) :
    Prop where
  device : fs.node? location = some .nullDevice → next = fs
  content : fs.node? location ≠ some .nullDevice →
    next.node? location = some (.file text.toUTF8) ∧
      ∀ path, fs.target path = .ok location → next.readText path = .ok text
  others : ∀ other, other ≠ location → next.node? other = fs.node? other
  directories : ∀ place, next.node? place = some .directory ↔ fs.node? place = some .directory
  workingPlace : next.workingPlace = fs.workingPlace

/-- `fs.CutShort location text next` holds when `next` is `fs` after as much of `text` was written
to the file at `location` as it can hold, which is not all of it. -/
def CutShort (fs : FileSystem) (location : Location) (text : String) (next : FileSystem) : Prop :=
  ∃ stored rest, text.toUTF8 = stored ++ rest ∧ rest ≠ .empty ∧
    fs.capacity location = some stored.size ∧ fs.Overwritten location stored next

/-- What a truncated file has received is all that it holds. -/
theorem overwritten_of_receives {stored : ByteArray} (h : fs.node? location ≠ some .directory)
    (hreceives : (fs.truncate location).Receives location stored next) :
    fs.Overwritten location stored next where
  toSameBut := (sameBut_truncate h).trans hreceives.toSameBut
  device hdevice := by
    rw [truncate_of_device hdevice] at hreceives
    exact hreceives.device fun content hcontent => by simp [hcontent] at hdevice
  content hnull hfull := by
    rw [hreceives.content _ (node?_truncate h hnull hfull), ByteArray.empty_append]

/-- A text that a file holds is read back, however the path to the file is spelled. -/
theorem written_of_overwritten (hfull : fs.node? location ≠ some .fullDevice)
    (hover : fs.Overwritten location text.toUTF8 next) : fs.Written location text next where
  device hnull := hover.device (.inl hnull)
  content hnull := by
    have hnode := hover.content hnull hfull
    have hkeeps : fs.Keeps next := hover.keeps (by simp [hnode])
    exact ⟨hnode, fun other hother =>
      readText_of_target (hkeeps.target hother (by simp [hnode])) hnode⟩
  others := hover.others
  directories := hover.directories
  workingPlace := hover.workingPlace

/-- A write whose path leads nowhere fails for that reason and changes nothing. -/
theorem writeText_of_target_error {cause : FileError} (h : fs.target path = .error cause)
    (text : String) : fs.writeText path text = (.error cause, fs) := by
  unfold writeText overwrite
  rw [h]

/-- A part of a text leaves room for no more when the rest of it was not taken. -/
theorem not_hasRoom {stored rest : ByteArray} (hsplit : text.toUTF8 = stored ++ rest)
    (hrest : rest ≠ .empty) (hcapacity : fs.capacity location = some stored.size) :
    ¬ fs.HasRoom location text := by
  intro hroom
  have hfits := hroom _ hcapacity
  rw [hsplit, ByteArray.size_append] at hfits
  exact hrest (ByteArray.size_eq_zero_iff.1 (by omega))

/-- A device without room has none for a text that is not empty. -/
theorem HasRoom.not_fullDevice (h : fs.HasRoom location text) (htext : text ≠ "") :
    fs.node? location ≠ some .fullDevice := by
  intro hfull
  have hsize := h 0 (by rw [capacity, hfull])
  have hempty : text.toUTF8 = "".toUTF8 := ByteArray.size_eq_zero_iff.1 (by omega)
  exact htext (String.toByteArray_inj.1 hempty)

/-- A write whose path leads to a file creates or overwrites that file. All of the text is written
if the file can hold it, and otherwise the write fails and the file holds what it can. -/
theorem writeText_of_target (h : fs.target path = .ok location) (htext : text ≠ "") :
    let outcome := fs.writeText path text
    (fs.HasRoom location text ∧ outcome.1 = .ok () ∧ fs.Written location text outcome.2) ∨
      (¬ fs.HasRoom location text ∧ outcome.1 = .error .storageFull ∧
        fs.CutShort location text outcome.2) := by
  obtain ⟨-, -, -, -, -, -, -, -, -, hdirectory⟩ := target_eq_ok_iff.1 h
  have hwrite : fs.writeText path text =
      (fs.truncate location).writeAll location text.toUTF8 := by
    unfold writeText overwrite
    rw [h]
  dsimp only
  rw [hwrite]
  obtain ⟨stored, rest, hsplit, hreceives, hend⟩ :=
    receives_writeAll (fs.truncate location) location text.toUTF8
  have hfits := hreceives.fits
  have hover := overwritten_of_receives hdirectory hreceives
  rw [roomAt_truncate hdirectory] at hend hfits
  rcases hend with ⟨hok, rfl⟩ | ⟨herror, hrest, hcapacity⟩
  · rw [ByteArray.append_empty] at hsplit
    rw [← hsplit] at hfits hover
    have hroom : fs.HasRoom location text := hfits
    exact .inl ⟨hroom, hok, written_of_overwritten (hroom.not_fullDevice htext) hover⟩
  · exact .inr ⟨not_hasRoom hsplit hrest hcapacity, herror, stored, rest, hsplit, hrest, hcapacity,
      hover⟩

/-- A write that succeeds has written all of the text. -/
theorem written_of_writeText (htext : text ≠ "") (h : fs.writeText path text = (.ok (), next)) :
    ∃ location, fs.target path = .ok location ∧ fs.Written location text next := by
  cases htarget : fs.target path with
  | error cause =>
      rw [writeText_of_target_error htarget] at h
      cases h
  | ok location =>
      have houtcome := writeText_of_target htarget htext
      rw [h] at houtcome
      obtain ⟨-, -, hwritten⟩ | ⟨-, herror, -⟩ := houtcome
      · exact ⟨location, rfl, hwritten⟩
      · cases herror

/-- Where room is not limited there is room for every text, except on the full device. -/
theorem hasRoom_of_unlimited (h : fs.room = none)
    (hfull : fs.node? location ≠ some .fullDevice) (text : String) : fs.HasRoom location text := by
  intro capacity hcapacity
  unfold FileSystem.capacity at hcapacity
  rw [h] at hcapacity
  split at hcapacity <;> simp_all

end LintSarif.FileSystem
