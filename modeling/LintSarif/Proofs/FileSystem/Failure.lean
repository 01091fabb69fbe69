import LintSarif.Proofs.FileSystem.Conversion
import LintSarif.Proofs.FileSystem.Paths

/-!
# Conversions that fail

Read `convert_failure` first: a conversion that fails names the first of its steps that cannot be
taken. As long as its output has not been opened it leaves the file system as it was. After that
only want of room can make it fail, and then the output holds a beginning of the document.
-/

namespace LintSarif.FileSystem

variable {fs : FileSystem} {input output document : String} {location : Location}
  {cause : FileError}

/-- `fs.Ready input output location document` holds when a conversion of `input` to `output` comes
to its last step, which is to write `document` to the file at `location`. -/
def Ready (fs : FileSystem) (input output : String) (location : Location) (document : String) :
    Prop :=
  ∃ text base, fs.HoldsText input text ∧ fs.currentDirectory = .ok base ∧
    fs.Opens output location ∧ Sarif.render (Scan.ofText text).diagnostics base = document

/-- A conversion comes to its last step when the steps before it succeed. -/
theorem ready_iff : fs.Ready input output location document ↔
    ∃ text base, fs.readText input = .ok text ∧ fs.currentDirectory = .ok base ∧
      fs.target output = .ok location ∧
      Sarif.render (Scan.ofText text).diagnostics base = document := by
  unfold Ready
  simp only [readText_eq_ok_iff, target_eq_ok_iff_opens]

/-! ## Each outcome -/

/-- An input that cannot be read ends a conversion before anything is logged. -/
theorem convert_of_readText_error (hread : fs.readText input = .error cause) (output : String) :
    fs.convert input output = (⟨[], .error (.readInput input cause)⟩, fs) := by
  rw [convert_eq, hread]

/-- A current directory that cannot be found ends a conversion when its input has been scanned. -/
theorem convert_of_currentDirectory_error {text : String} (hread : fs.readText input = .ok text)
    (hbase : fs.currentDirectory = .error cause) (output : String) :
    fs.convert input output =
      (⟨(Scan.ofText text).events, .error (.currentDirectory cause)⟩, fs) := by
  rw [convert_eq, hread, hbase]

/-- An output that cannot be opened ends a conversion when its document has been built. -/
theorem convert_of_target_error {text base : String} (hread : fs.readText input = .ok text)
    (hbase : fs.currentDirectory = .ok base) (htarget : fs.target output = .error cause) :
    ∃ events, fs.convert input output = (⟨events, .error (.writeOutput output cause)⟩, fs) := by
  rw [convert_eq, hread, hbase]
  dsimp only
  rw [writeText_of_target_error htarget]
  exact ⟨_, rfl⟩

/-- A conversion that comes to its last step succeeds if there is room for the document. -/
theorem convert_of_ready (h : fs.Ready input output location document) :
    let outcome := fs.convert input output
    (fs.HasRoom location document ∧ (∃ n, outcome.1.result = .ok n) ∧
        fs.Written location document outcome.2) ∨
      (¬ fs.HasRoom location document ∧
        outcome.1.result = .error (.writeOutput output .storageFull) ∧
        fs.CutShort location document outcome.2) := by
  obtain ⟨text, base, hread, hbase, htarget, rfl⟩ := ready_iff.1 h
  obtain ⟨-, hend⟩ := convert_of_target hread hbase htarget
  exact hend.imp (fun ⟨hroom, hok, hwritten⟩ => ⟨hroom, ⟨_, hok⟩, hwritten⟩) id

/-! ## All outcomes -/

/-- `fs.Explains input output error` holds when `error` gives the cause for which one step of a
conversion of `input` to `output` cannot be taken, with the path of that step as it was given. -/
inductive Explains (fs : FileSystem) (input output : String) : ConversionError → Prop where
  | readInput (cause : FileError) :
      fs.readText input = .error cause → Explains fs input output (.readInput input cause)
  | currentDirectory (cause : FileError) :
      fs.currentDirectory = .error cause → Explains fs input output (.currentDirectory cause)
  | openOutput (cause : FileError) :
      fs.target output = .error cause → Explains fs input output (.writeOutput output cause)
  | fillOutput (location : Location) (document : String) :
      fs.Ready input output location document → ¬ fs.HasRoom location document →
      Explains fs input output (.writeOutput output .storageFull)

/-- A conversion that fails before it has opened its output leaves everything as it was. Its error
names the input, as it was given, when that cannot be read as a text; otherwise the current
directory when that cannot be found, whatever the output is; otherwise the output, as it was given,
when that cannot be opened for writing, or when it was opened and has no room for the document. In
the last case the output holds as much of the document as it can and nothing else has changed. In
all other cases the conversion succeeds. -/
theorem convert_failure (fs : FileSystem) (input output : String) :
    let result := (fs.convert input output).1.result
    let next := (fs.convert input output).2
    (¬ (fs.Readable input ∧ fs.Resolvable ∧ fs.Writable output) → next = fs) ∧
    ((∃ cause, result = .error (.readInput input cause)) ↔ ¬ fs.Readable input) ∧
    ((∃ cause, result = .error (.currentDirectory cause)) ↔
      fs.Readable input ∧ ¬ fs.Resolvable) ∧
    ((∃ cause, result = .error (.writeOutput output cause)) ↔
      fs.Readable input ∧ fs.Resolvable ∧
        (¬ fs.Writable output ∨ ∃ location document,
          fs.Ready input output location document ∧ ¬ fs.HasRoom location document)) ∧
    (∀ error, result = .error error → fs.Explains input output error) ∧
    (∀ location document, fs.Ready input output location document →
      ¬ fs.HasRoom location document →
      result = .error (.writeOutput output .storageFull) ∧
        fs.CutShort location document next) ∧
    ((∃ n, result = .ok n) ↔
      ∃ location document, fs.Ready input output location document ∧
        fs.HasRoom location document) := by
  intro result next
  have hresult : result = (fs.convert input output).1.result := rfl
  have hnext : next = (fs.convert input output).2 := rfl
  rw [readable_iff, resolvable_iff, writable_iff]
  cases hread : fs.readText input with
  | error cause =>
      have hexplains : fs.Explains input output _ := .readInput cause hread
      rw [convert_of_readText_error hread] at hresult hnext
      simp [hresult, hnext, hexplains, ready_iff, hread]
  | ok text =>
      cases hbase : fs.currentDirectory with
      | error cause =>
          have hexplains : fs.Explains input output _ := .currentDirectory cause hbase
          rw [convert_of_currentDirectory_error hread hbase] at hresult hnext
          simp [hresult, hnext, hexplains, ready_iff, hread, hbase]
      | ok base =>
          cases htarget : fs.target output with
          | error cause =>
              have hexplains : fs.Explains input output _ := .openOutput cause htarget
              obtain ⟨events, hconvert⟩ := convert_of_target_error hread hbase htarget
              rw [hconvert] at hresult hnext
              simp [hresult, hnext, hexplains, ready_iff, hread, hbase, htarget]
          | ok location =>
              have hready := ready_iff.2 ⟨text, base, hread, hbase, htarget, rfl⟩
              obtain ⟨hroom, ⟨n, hok⟩, -⟩ | ⟨hroom, herror, hcut⟩ := convert_of_ready hready
              · rw [← hresult] at hok
                simp [hok, hroom, ready_iff, hread, hbase, htarget]
              · have hexplains : fs.Explains input output _ := .fillOutput location _ hready hroom
                rw [← hresult] at herror
                rw [← hnext] at hcut
                simp [herror, hroom, hcut, hexplains, ready_iff, hread, hbase, htarget]

/-! ## Want of room -/

/-- The bytes with which every document starts. -/
def documentStart : ByteArray :=
  "\x7b\n  \"".toUTF8

/-- A system with an empty log, an old output of three bytes and room for two bytes besides. -/
def crowded : FileSystem :=
  { (fresh.set ["log", "work"] (.file .empty)).set ["out", "work"] (.file "old".toUTF8) with
    room := some 2 }

/-- The output can hold five bytes, which is as much as every document starts with. -/
theorem capacity_crowded : crowded.capacity ["out", "work"] = some documentStart.size := by
  decide +kernel

theorem node?_crowded : crowded.node? ["out", "work"] = some (.file "old".toUTF8) :=
  node?_set_self _ _ _

/-- Nothing is wanting for the conversion of the log but room for the document. -/
theorem ready_crowded :
    crowded.Ready "log" "out" ["out", "work"] (Sarif.render [] "/work") ∧
      ¬ crowded.HasRoom ["out", "work"] (Sarif.render [] "/work") := by
  have hread : crowded.readText "log" = .ok "" := by
    decide +kernel
  have hscan : (Scan.ofText "").diagnostics = [] := by
    decide +kernel
  have htarget : crowded.target "out" = .ok ["out", "work"] := by
    decide +kernel
  obtain ⟨rest, hrender, hrest⟩ :=
    (Sarif.Document.ofDiagnostics [] "/work").2.exists_toUTF8_render_eq
  exact ⟨ready_iff.2 ⟨"", "/work", hread, rfl, htarget, by rw [hscan]⟩,
    not_hasRoom hrender hrest capacity_crowded⟩

/-- What is left of the old output after the conversion is the start of the document. -/
theorem CutShort.node?_crowded {next : FileSystem}
    (h : crowded.CutShort ["out", "work"] (Sarif.render [] "/work") next) :
    next.node? ["out", "work"] = some (.file documentStart) := by
  obtain ⟨stored, rest, hsplit, -, hcapacity, hover⟩ := h
  obtain ⟨rest', hrender, -⟩ :=
    (Sarif.Document.ofDiagnostics [] "/work").2.exists_toUTF8_render_eq
  have hsize : stored.size = documentStart.size :=
    Option.some.inj (hcapacity.symm.trans capacity_crowded)
  have hnode := hover.content (by simp [FileSystem.node?_crowded])
    (by simp [FileSystem.node?_crowded])
  have hstored : stored = documentStart :=
    ByteArray.append_inj_left (hsplit.symm.trans hrender) hsize
  rwa [hstored] at hnode

/-- Three causes at once: the input is no text, the current directory is removed and the output lies
in a directory that is missing. The input is named. With a readable input it is the current
directory that is named, and the file system is the same after both. Where there is nothing amiss
but the room, the old output is gone and five bytes of the document stand in its place. -/
theorem convert_failure_each_cause :
    let fs : FileSystem :=
      { fresh.set ["log"] (.file ⟨#[0x61, 0xff]⟩) with workingPlace := .removed [] }
    (¬ fs.Readable "/log" ∧ fs.Readable "/dev/null" ∧ ¬ fs.Resolvable ∧
      ¬ fs.Writable "/none/out") ∧
    (∃ cause, (fs.convert "/log" "/none/out").1.result = .error (.readInput "/log" cause)) ∧
    (∃ cause, (fs.convert "/dev/null" "/none/out").1.result = .error (.currentDirectory cause)) ∧
    (fs.convert "/log" "/none/out").2 = fs ∧ (fs.convert "/dev/null" "/none/out").2 = fs ∧
    (crowded.convert "log" "out").1.result = .error (.writeOutput "out" .storageFull) ∧
    (crowded.convert "log" "out").2.node? ["out", "work"] = some (.file documentStart) := by
  intro fs
  have hlog : ¬ fs.Readable "/log" := by
    rw [readable_iff, show fs.readText "/log" = .error .invalidUtf8 by decide +kernel]
    simp
  have hdevice : fs.Readable "/dev/null" :=
    readable_iff.2 ⟨"", by decide +kernel⟩
  have hremoved : ¬ fs.Resolvable := by
    simp [Resolvable, fs]
  have hout : ¬ fs.Writable "/none/out" := by
    rw [writable_iff, show fs.target "/none/out" = .error .notFound by decide +kernel]
    simp
  obtain ⟨hkeep, hinput, -⟩ := convert_failure fs "/log" "/none/out"
  obtain ⟨hkeep', -, hcurrent, -⟩ := convert_failure fs "/dev/null" "/none/out"
  obtain ⟨hready, hroom⟩ := ready_crowded
  obtain ⟨-, -, -, -, -, hfull, -⟩ := convert_failure crowded "log" "out"
  obtain ⟨herror, hcut⟩ := hfull _ _ hready hroom
  exact ⟨⟨hlog, hdevice, hremoved, hout⟩, hinput.2 hlog, hcurrent.2 ⟨hdevice, hremoved⟩,
    hkeep fun h => hlog h.1, hkeep' fun h => hremoved h.2.1, herror, hcut.node?_crowded⟩

/-- Nothing has to be amiss with the two paths for a conversion to fail: the full device can be
opened and takes nothing. Nor does a conversion that fails always leave its output alone: the output
that has too little room has been overwritten. -/
theorem convert_fails_after_opening :
    let fs := fresh.set ["log", "work"] (.file .empty)
    ((fs.Readable "log" ∧ fs.Resolvable ∧ fs.Writable "/dev/full") ∧
      (fs.convert "log" "/dev/full").1.result =
        .error (.writeOutput "/dev/full" .storageFull)) ∧
    (crowded.Readable "log" ∧ crowded.Resolvable ∧ crowded.Writable "out") ∧
      (crowded.convert "log" "out").1.result = .error (.writeOutput "out" .storageFull) ∧
      (crowded.convert "log" "out").2 ≠ crowded := by
  intro fs
  have hread : fs.readText "log" = .ok "" := by
    decide +kernel
  have htarget : fs.target "/dev/full" = .ok ["full", "dev"] := by
    decide +kernel
  have hfull : fs.node? ["full", "dev"] = some .fullDevice := by
    decide +kernel
  have hready := ready_iff.2 ⟨"", "/work", hread, rfl, htarget, rfl⟩
  obtain ⟨hready', hroom'⟩ := ready_crowded
  obtain ⟨text, base, hread', hbase', htarget', -⟩ := ready_iff.1 hready'
  obtain ⟨hroom, -⟩ | ⟨-, herror, -⟩ := convert_of_ready hready
  · exact absurd hfull (hroom.not_fullDevice (Sarif.Document.render_ne_empty _))
  obtain ⟨hroom, -⟩ | ⟨-, herror', hcut⟩ := convert_of_ready hready'
  · exact absurd hroom hroom'
  refine ⟨⟨⟨readable_iff.2 ⟨_, hread⟩, resolvable_iff.2 ⟨_, rfl⟩, writable_iff.2 ⟨_, htarget⟩⟩,
    herror⟩, ⟨readable_iff.2 ⟨_, hread'⟩, resolvable_iff.2 ⟨_, hbase'⟩,
    writable_iff.2 ⟨_, htarget'⟩⟩, herror', fun hsame => ?_⟩
  have hnode := hcut.node?_crowded
  rw [hsame, node?_crowded] at hnode
  exact absurd hnode (by decide +kernel)

end LintSarif.FileSystem
