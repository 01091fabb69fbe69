import LintSarif.Proofs.FileSystem.Conversion
import LintSarif.Proofs.Path.NormalForm
import LintSarif.Proofs.Sarif.Integrity

/-!
# The files that a document names

Every place in a document is a resolved path. Read `uris_in_normal_form` first: resolved paths are
in normal form and stay as they are when they are resolved again, and the places in a document that
a conversion writes are absolute, since the current directory is.
-/

namespace LintSarif

/-- The text of a location starts at the root. -/
theorem Location.isAbsolute_text (location : Location) :
    Path.isAbsolute location.text.toList = true := by
  unfold text
  rw [String.toList_append]
  rfl

/-- The current directory is an absolute path wherever there is one. -/
theorem FileSystem.isAbsolute_currentDirectory {fs : FileSystem} {here : String}
    (h : fs.currentDirectory = .ok here) : Path.isAbsolute here.toList = true := by
  unfold currentDirectory at h
  split at h
  · next location _ =>
      cases h
      exact location.isAbsolute_text
  · contradiction

namespace Sarif

/-- `d.uris` are the files that the results of `d` are in, result by result. -/
def Document.uris (d : Document) : List String :=
  d.results.flatMap fun result => result.locations.map Location.uri

/-- They are the files of the diagnostics, resolved in the directory. -/
theorem Document.uris_ofDiagnostics (diagnostics : List Diagnostic) (base : String) :
    (ofDiagnostics diagnostics base).2.uris =
      diagnostics.map fun d => Path.absolutize d.file base := by
  rw [uris, ofDiagnostics_results, List.flatMap_map]
  exact List.flatMap_pure_eq_map _ _

/-- Any two paths are resolved to a path in normal form, which is absolute exactly when one of the
two is. Resolving that path once more gives it back, in whatever directory when it is absolute and
in the empty one when it is relative. So the files named in a document that a conversion writes are
absolute paths in normal form. -/
theorem uris_in_normal_form :
    (∀ path base : String,
      let resolved := Path.absolutize path base
      Path.IsNormal resolved.toList ∧
        (Path.isAbsolute resolved.toList = true ↔
          Path.isAbsolute path.toList = true ∨ Path.isAbsolute base.toList = true) ∧
        (Path.isAbsolute resolved.toList = true →
          ∀ other, Path.absolutize resolved other = resolved) ∧
        (Path.isAbsolute resolved.toList = false → Path.absolutize resolved "" = resolved)) ∧
    ∀ (fs next : FileSystem) (input output : String) (events : List Log.Event) (n : Nat),
      fs.convert input output = (⟨events, .ok n⟩, next) →
      ∃ text here location, fs.readText input = .ok text ∧ fs.currentDirectory = .ok here ∧
        fs.target output = .ok location ∧
        let document := (Document.ofDiagnostics (Scan.ofText text).diagnostics here).2
        fs.Written location document.render next ∧ document.uris.length = n ∧
          ∀ uri ∈ document.uris,
            Path.isAbsolute uri.toList = true ∧ Path.IsNormal uri.toList := by
  refine ⟨fun path base => ⟨Path.isNormal_absolutize path base, ?_, fun h other => ?_, fun h => ?_⟩,
    fun fs next input output events n h => ?_⟩
  · rw [Path.isAbsolute_absolutize, Bool.or_eq_true]
  · exact Path.absolutize_absolutize_of_join (Path.join_of_isAbsolute h other.toList)
  · exact Path.absolutize_absolutize_of_join (Path.join_nil _)
  · obtain ⟨text, here, hread, hhere, hwrite, rfl⟩ := FileSystem.convert_eq_ok_iff.1 ⟨events, h⟩
    obtain ⟨location, htarget, hwritten⟩ :=
      FileSystem.written_of_writeText (Document.render_ne_empty _) hwrite
    refine ⟨text, here, location, hread, hhere, htarget, hwritten, ?_, ?_⟩
    · rw [Document.uris_ofDiagnostics, List.length_map]
    · rw [Document.uris_ofDiagnostics]
      intro uri huri
      obtain ⟨d, -, rfl⟩ := List.mem_map.1 huri
      refine ⟨?_, Path.isNormal_absolutize d.file here⟩
      rw [Path.isAbsolute_absolutize, FileSystem.isAbsolute_currentDirectory hhere, Bool.or_true]

/-- A file that a log spells with dots and needless slashes is named by its absolute path. -/
theorem uris_in_normal_form_dotted :
    let log := "./a//../b.c:1:1: note: m [r]"
    let fs := FileSystem.fresh.set ["log", "work"] (.file log.toUTF8)
    let document := (Document.ofDiagnostics (Scan.ofText log).diagnostics "/work").2
    document.uris = ["/work/b.c"] ∧
      ∃ events next, fs.convert "log" "out" = (⟨events, .ok 1⟩, next) ∧
        next.readText "out" = .ok document.render ∧
        Path.IsNormal "/work/b.c".toList ∧ Path.absolutize "/work/b.c" "../d" = "/work/b.c" := by
  intro log fs document
  have hscan : (Scan.ofText log).diagnostics = [⟨"./a//../b.c", 0, 0, .note, "m", "r"⟩] := by
    decide +kernel
  have hpath : Path.absolutize "./a//../b.c" "/work" = "/work/b.c" := by
    decide +kernel
  have huris : document.uris = ["/work/b.c"] := by
    rw [Document.uris_ofDiagnostics, hscan, List.map_singleton, hpath]
  have hnode : fs.node? ["log", "work"] = some (.file log.toUTF8) :=
    FileSystem.node?_set_self _ _ _
  have hsource : fs.target "log" = .ok ["log", "work"] := by
    decide +kernel
  have houtput : fs.target "out" = .ok ["out", "work"] := by
    decide +kernel
  have hread : fs.readText "log" = .ok log := FileSystem.readText_of_target hsource hnode
  have habsent : fs.node? ["out", "work"] = none := by
    decide +kernel
  obtain ⟨events, next, h⟩ := FileSystem.exists_convert_ok hread rfl houtput
    (FileSystem.hasRoom_of_unlimited rfl (by simp [habsent]) _)
  rw [hscan] at h
  obtain ⟨hpaths, hconvert⟩ := uris_in_normal_form
  obtain ⟨text, here, location, htext, hhere, hlocation, hwritten, -, hnormal⟩ :=
    hconvert fs next "log" "out" events 1 h
  obtain rfl : text = log := Except.ok.inj (htext.symm.trans hread)
  obtain rfl : here = "/work" := Except.ok.inj (hhere.symm.trans rfl)
  obtain rfl : location = ["out", "work"] := Except.ok.inj (hlocation.symm.trans houtput)
  obtain ⟨habsolute, hform⟩ := hnormal "/work/b.c" (huris ▸ List.mem_singleton_self _)
  obtain ⟨-, -, hself, -⟩ := hpaths "./a//../b.c" "/work"
  rw [hpath] at hself
  exact ⟨huris, events, next, h, (hwritten.content (by simp [habsent])).2 "out" houtput, hform,
    hself habsolute "../d"⟩

end Sarif

end LintSarif
