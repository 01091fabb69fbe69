import LintSarif.FileSystem.Host
import LintSarif.Proofs.FileSystem.Writing
import LintSarif.Proofs.Json.Printing

/-!
# What a conversion does to the files

A conversion on a file system is one read and at most one write (`convert_eq`). Read
`convert_success` first: a conversion that succeeds has put the document of the old text of its
input where its output leads, and has changed nothing else, also when the two paths lead to one
file.
-/

namespace LintSarif.FileSystem

variable {fs next : FileSystem} {input output : String} {events : List Log.Event} {n : Nat}

theorem run_readText (fs : FileSystem) (path : String) :
    (Host.readText path : StateM FileSystem (Except FileError String)).run fs =
      pure (fs.readText path, fs) := rfl

theorem run_currentDirectory (fs : FileSystem) :
    (Host.currentDirectory : StateM FileSystem (Except FileError String)).run fs =
      pure (fs.currentDirectory, fs) := rfl

theorem run_writeText (fs : FileSystem) (path text : String) :
    (Host.writeText path text : StateM FileSystem (Except FileError Unit)).run fs =
      pure (fs.writeText path text) := rfl

/-- The steps of a conversion. Only the last one can change the file system. -/
theorem convert_eq (fs : FileSystem) (input output : String) :
    fs.convert input output =
      match fs.readText input with
      | .error cause => (⟨[], .error (.readInput input cause)⟩, fs)
      | .ok text =>
        let scan := Scan.ofText text
        match fs.currentDirectory with
        | .error cause => (⟨scan.events, .error (.currentDirectory cause)⟩, fs)
        | .ok base =>
          let built := Sarif.Document.ofDiagnostics scan.diagnostics base
          let written := fs.writeText output built.2.render
          match written.1 with
          | .error cause =>
            (⟨scan.events ++ built.1, .error (.writeOutput output cause)⟩, written.2)
          | .ok () => (⟨scan.events ++ built.1, .ok scan.diagnostics.length⟩, written.2) := by
  unfold convert LintSarif.convert
  rw [StateT.run_bind, run_readText, pure_bind]
  cases fs.readText input with
  | error cause => rfl
  | ok text =>
      dsimp only
      rw [StateT.run_bind, run_currentDirectory, pure_bind]
      cases fs.currentDirectory with
      | error cause => rfl
      | ok base =>
          dsimp only
          rw [StateT.run_bind, run_writeText, pure_bind]
          cases (fs.writeText output
            (Sarif.Document.ofDiagnostics (Scan.ofText text).diagnostics base).2.render).1 with
          | error cause => rfl
          | ok done => rfl

/-- When a conversion succeeds, and with which number. -/
theorem convert_eq_ok_iff :
    (∃ events, fs.convert input output = (⟨events, .ok n⟩, next)) ↔
      ∃ text base, fs.readText input = .ok text ∧ fs.currentDirectory = .ok base ∧
        fs.writeText output (Sarif.render (Scan.ofText text).diagnostics base) = (.ok (), next) ∧
        (Scan.ofText text).diagnostics.length = n := by
  rw [convert_eq]
  cases hread : fs.readText input with
  | error cause => simp
  | ok text =>
      cases hbase : fs.currentDirectory with
      | error cause => simp
      | ok base =>
          rcases hwrite : fs.writeText output
            (Sarif.Document.ofDiagnostics (Scan.ofText text).diagnostics base).2.render with
            ⟨done, after⟩
          cases done with
          | error cause => simp [Sarif.render, hwrite]
          | ok done => simp [Sarif.render, hwrite, and_comm]

/-- A conversion whose input is a text, whose current directory is there and whose output leads to a
file depends on nothing but the room: it succeeds if there is room for the document. -/
theorem convert_of_target {text base : String} {location : Location}
    (hread : fs.readText input = .ok text) (hbase : fs.currentDirectory = .ok base)
    (htarget : fs.target output = .ok location) :
    let scan := Scan.ofText text
    let document := Sarif.render scan.diagnostics base
    let outcome := fs.convert input output
    outcome.1.events = scan.events ++ (Sarif.Document.ofDiagnostics scan.diagnostics base).1 ∧
      ((fs.HasRoom location document ∧ outcome.1.result = .ok scan.diagnostics.length ∧
          fs.Written location document outcome.2) ∨
        (¬ fs.HasRoom location document ∧
          outcome.1.result = .error (.writeOutput output .storageFull) ∧
          fs.CutShort location document outcome.2)) := by
  have hwrite := writeText_of_target htarget
    (Sarif.Document.ofDiagnostics (Scan.ofText text).diagnostics base).2.render_ne_empty
  dsimp only at hwrite ⊢
  rw [convert_eq, hread, hbase]
  dsimp only
  obtain ⟨hroom, hok, hwritten⟩ | ⟨hroom, herror, hcut⟩ := hwrite
  · rw [hok]
    exact ⟨rfl, .inl ⟨hroom, rfl, hwritten⟩⟩
  · rw [herror]
    exact ⟨rfl, .inr ⟨hroom, rfl, hcut⟩⟩

/-- Where there is room for the document, a conversion succeeds. -/
theorem exists_convert_ok {text base : String} {location : Location}
    (hread : fs.readText input = .ok text) (hbase : fs.currentDirectory = .ok base)
    (htarget : fs.target output = .ok location)
    (hroom : fs.HasRoom location (Sarif.render (Scan.ofText text).diagnostics base)) :
    ∃ events next,
      fs.convert input output = (⟨events, .ok (Scan.ofText text).diagnostics.length⟩, next) := by
  obtain ⟨-, ⟨-, hok, -⟩ | ⟨hnone, -⟩⟩ := convert_of_target hread hbase htarget
  · exact ⟨_, _, Prod.ext (congrArg (Conversion.mk _) hok) rfl⟩
  · exact absurd hroom hnone

/-- A conversion that succeeds has read its input as a text and has written the document of the
diagnostics of that text to the file that its output leads to. The number it answers is that of the
diagnostics and of the results of the document that was written. Nothing else has changed. -/
theorem convert_success (h : fs.convert input output = (⟨events, .ok n⟩, next)) :
    ∃ text base location,
      (fs.readText input = .ok text ∧ fs.currentDirectory = .ok base ∧
        fs.target output = .ok location) ∧
      let found := (Scan.ofText text).diagnostics
      n = found.length ∧
      (∃ document : Sarif.Document,
        Json.parse? (Sarif.render found base) = some document.toJson ∧
          n = document.results.length) ∧
      fs.Written location (Sarif.render found base) next := by
  obtain ⟨text, base, hread, hbase, hwrite, rfl⟩ := convert_eq_ok_iff.1 ⟨events, h⟩
  obtain ⟨location, htarget, hwritten⟩ :=
    written_of_writeText (Sarif.Document.render_ne_empty _) hwrite
  refine ⟨text, base, location, ⟨hread, hbase, htarget⟩, rfl, ?_, hwritten⟩
  refine ⟨_, Json.parse?_print _, ?_⟩
  rw [Sarif.Document.ofDiagnostics_results, List.length_map]

/-- The two paths of a conversion may spell one file in different ways. What is written is the
document of the text that was there before. -/
theorem convert_success_in_place :
    let old := "a.c:1:2: note: m [r]"
    let fs := fresh.set ["log", "work"] (.file old.toUTF8)
    ∃ events next, fs.convert "log" "./log" = (⟨events, .ok 1⟩, next) ∧
      next.readText "../work/log" =
        .ok (Sarif.render [⟨"a.c", 0, 1, .note, "m", "r"⟩] "/work") := by
  intro old fs
  have hscan : (Scan.ofText old).diagnostics = [⟨"a.c", 0, 1, .note, "m", "r"⟩] := by
    decide +kernel
  have hcurrent : fs.currentDirectory = .ok "/work" := rfl
  have hnode : fs.node? ["log", "work"] = some (.file old.toUTF8) := node?_set_self _ _ _
  have hinput : fs.target "log" = .ok ["log", "work"] := by
    decide +kernel
  have houtput : fs.target "./log" = .ok ["log", "work"] := by
    decide +kernel
  have hother : fs.target "../work/log" = .ok ["log", "work"] := by
    decide +kernel
  have hread : fs.readText "log" = .ok old := readText_of_target hinput hnode
  obtain ⟨events, next, h⟩ := exists_convert_ok hread hcurrent houtput
    (hasRoom_of_unlimited rfl (by simp [hnode]) _)
  rw [hscan] at h
  refine ⟨events, next, h, ?_⟩
  obtain ⟨text, base, location, ⟨htext, hbase, hlocation⟩, -, -, hwritten⟩ := convert_success h
  obtain rfl : text = old := Except.ok.inj (htext.symm.trans hread)
  obtain rfl : location = ["log", "work"] := Except.ok.inj (hlocation.symm.trans houtput)
  obtain rfl : base = "/work" := Except.ok.inj (hbase.symm.trans hcurrent)
  rw [hscan] at hwritten
  exact (hwritten.content (by simp [hnode])).2 "../work/log" hother

end LintSarif.FileSystem
