import LintSarif.Proofs.Diagnostic.Canonical
import LintSarif.Proofs.FileSystem.Conversion
import LintSarif.Proofs.FileSystem.Paths
import LintSarif.Proofs.Json.Layout
import LintSarif.Proofs.Path.Resolution
import LintSarif.Proofs.Sarif.Integrity

/-!
# A document is no log

A document that is scanned for diagnostics gives none, also when its strings hold whole diagnostic
lines. Read `render_inert` first. The lines of a document are those of its layout as long as no
string holds one of the three line breaks that JSON does not escape, and a line of the layout is no
diagnostic line (`LayoutLine.ofLine?_eq_none`): it does not end with a rule in brackets.
-/

namespace LintSarif

open Json (Escapable LayoutLine Layout Sealed)

/-! ## Lines that state no diagnostic -/

/-- A diagnostic line ends with a closing bracket, apart from blanks. -/
theorem BodyForm.getLast?_text {b : BodyForm} (hvalid : b.Valid) {c : Char}
    (hlast : b.text.getLast? = some c) (hblank : Text.isBlank c = false) : c = ']' := by
  have htext : b.text = b.message ++ b.ruleGap ++ '[' :: b.rule ++ ([']'] ++ b.ending) := rfl
  rw [htext, List.getLast?_append_of_ne_nil _ (by simp), List.getLast?_append] at hlast
  cases hend : b.ending.getLast? with
  | none =>
      rw [hend] at hlast
      exact (Option.some.inj hlast).symm
  | some x =>
      rw [hend] at hlast
      obtain rfl : x = c := Option.some.inj hlast
      rw [hvalid.ending x (List.mem_of_getLast? hend)] at hblank
      contradiction

/-- A line of the layout states no diagnostic. -/
theorem Json.LayoutLine.ofLine?_eq_none {line : List Char} (h : LayoutLine line) :
    Diagnostic.ofLine? line = none := by
  refine Diagnostic.ofLine?_eq_none fun f hvalid htext => ?_
  have hbody : f.toBodyForm.text ≠ [] := by
    simp [BodyForm.text]
  cases h with
  | ended _ c hlast hblank hne =>
      rw [← htext, LineForm.text, List.getLast?_append_of_ne_nil _ hbody] at hlast
      exact hne (BodyForm.getLast?_text hvalid.body hlast hblank)
  | unopened _ hopen =>
      refine hopen (htext ▸ ?_)
      simp [LineForm.text, BodyForm.text]
  | emptied before hopen =>
      have hsplit : f.file ++ f.toHeaderForm.text ++ f.message ++ f.ruleGap ++
          '[' :: (f.rule ++ ']' :: f.ending) = before ++ '[' :: [']'] := by
        rw [← htext]
        simp [LineForm.text, BodyForm.text]
      -- Too little follows the only opening bracket for a rule and its closing bracket.
      have hrule := List.length_pos_iff.2 hvalid.body.rule.1
      obtain ⟨-, hrest⟩ | ⟨between, -, hrest⟩ := Text.eq_or_exists_of_append_cons hopen hsplit
      all_goals
        have hlength := congrArg List.length hrest
        simp only [List.length_append, List.length_cons, List.length_nil] at hlength
        omega

/-- A text with the layout of a value holds no diagnostic. -/
theorem Scan.diagnostics_of_layout {text : String} (h : Layout text.toList) :
    (ofText text).diagnostics = [] := by
  unfold ofText
  rw [diagnostics_ofPieces]
  exact List.filterMap_eq_nil_iff.2 fun line hline => (h line hline).ofLine?_eq_none

/-- The text of a sealed value holds no diagnostic. -/
theorem Scan.diagnostics_print {v : Json} (h : v.Sealed) : (ofText v.print).diagnostics = [] := by
  refine diagnostics_of_layout ?_
  have hlines := h.laid 0 [] [] ⟨List.forall_mem_nil _, List.not_mem_nil⟩ (.inl rfl)
  rwa [List.nil_append, List.append_nil, ← String.toList_ofList (l := Json.write 0 v)] at hlines

/-! ## The strings of a document -/

/-- `d.Escapable` holds when all line breaks in the texts of `d` are escaped in JSON. -/
structure Diagnostic.Escapable (d : Diagnostic) : Prop where
  file : Json.Escapable d.file
  message : Json.Escapable d.message
  rule : Json.Escapable d.rule

/-- A text without line breaks has none that is not escaped. -/
theorem Json.escapable_of_unbroken {text : String}
    (h : ∀ c ∈ text.toList, Text.isLineBreak c = false) : Escapable text := by
  have hbreaks : rawBreaks.all Text.isLineBreak = true := by
    decide
  intro c hc hmem
  have hbreak := List.all_eq_true.1 hbreaks c hmem
  rw [h c hc] at hbreak
  contradiction

/-- The diagnostics of a text hold no line breaks at all. -/
theorem Scan.escapable_of_mem {text : String} {d : Diagnostic}
    (h : d ∈ (ofText text).diagnostics) : d.Escapable := by
  obtain ⟨piece, hpiece, f, hreads, -, rfl⟩ := exists_reads_of_mem h
  have hunbroken := hreads.unbroken (Text.unbroken_of_mem_pieces hpiece)
  exact ⟨Json.escapable_of_unbroken hunbroken.file, Json.escapable_of_unbroken hunbroken.message,
    Json.escapable_of_unbroken hunbroken.rule⟩

namespace Sarif

variable {base : String}

/-- A resolved path holds no line break that its parts do not hold. -/
theorem escapable_absolutize {path : String} (hpath : Escapable path) (hbase : Escapable base) :
    Escapable (Path.absolutize path base) := by
  unfold Escapable Path.absolutize
  rw [String.toList_ofList]
  exact Path.forall_mem_resolve (by decide) hpath hbase

theorem sealed_messageToJson {text : String} (h : Escapable text) :
    (messageToJson text).Sealed := by
  refine .obj _ (by simp) ?_
  exact List.forall_mem_singleton.2 (.str text h)

theorem Level.sealed_name (l : Level) : (Json.str l.name).Sealed := by
  refine .str l.name ?_
  cases l <;> simp [name, Escapable]

/-- The description of a rule is sealed if all line breaks in its name are escaped. -/
theorem Rule.sealed_describe {id : String} (h : Escapable id) : (describe id).toJson.Sealed := by
  have hfull : Escapable (describe id).fullDescription := by
    unfold describe Escapable
    rw [String.toList_append]
    exact List.forall_mem_append.2 ⟨by simp, h⟩
  have hhelp : Escapable (describe id).help := by
    simp [describe, Escapable]
  have hlevel : (Json.obj [("level", .str (describe id).defaultLevel.name)]).Sealed :=
    .obj _ (by simp)
      (List.forall_mem_singleton.2 (Level.sealed_name _))
  refine .obj _ (by simp) ?_
  simp only [List.forall_mem_cons]
  exact ⟨.str _ h, .str _ h, sealed_messageToJson h, sealed_messageToJson hfull,
    sealed_messageToJson hhelp, hlevel, List.forall_mem_nil _⟩

theorem Location.sealed_toJson {l : Location} (h : Escapable l.uri) : l.toJson.Sealed := by
  have hfile : (Json.obj [("uri", .str l.uri)]).Sealed :=
    .obj _ (by simp) (List.forall_mem_singleton.2 (.str _ h))
  have hregion :
      (Json.obj [("startLine", .int l.startLine), ("startColumn", .int l.startColumn)]).Sealed := by
    refine .obj _ (by simp) ?_
    simp only [List.forall_mem_cons]
    exact ⟨.int _, .int _, List.forall_mem_nil _⟩
  refine .obj _ (by simp) (List.forall_mem_singleton.2 ?_)
  refine .obj _ (by simp) ?_
  simp only [List.forall_mem_cons]
  exact ⟨hfile, hregion, List.forall_mem_nil _⟩

/-- The result for a diagnostic is sealed if all line breaks in its texts and in the directory are
escaped. -/
theorem Result.sealed_ofDiagnostic {d : Diagnostic} (hbase : Escapable base) (h : d.Escapable) :
    (ofDiagnostic base d).toJson.Sealed := by
  have hlocation := Location.sealed_toJson
    (l := ⟨Path.absolutize d.file base, d.line + 1, d.column + 1⟩)
    (escapable_absolutize h.file hbase)
  refine .obj _ (by simp) ?_
  simp only [List.forall_mem_cons]
  exact ⟨.str _ h.rule, Level.sealed_name _, sealed_messageToJson h.message,
    .arr _ (List.forall_mem_singleton.2 hlocation), List.forall_mem_nil _⟩

/-- A document is sealed if its rules and its results are. -/
theorem Document.sealed_toJson {d : Document} (hrules : ∀ rule ∈ d.rules, rule.toJson.Sealed)
    (hresults : ∀ result ∈ d.results, result.toJson.Sealed) : d.toJson.Sealed := by
  have hdriver : (Json.obj [("name", .str "clang-tidy"),
      ("informationUri", .str "https://clang.llvm.org/extra/clang-tidy/"),
      ("rules", .arr (d.rules.map Rule.toJson))]).Sealed := by
    refine .obj _ (by simp) ?_
    simp only [List.forall_mem_cons]
    exact ⟨.str _ (by simp [Escapable]),
      .str _ (by simp [Escapable]),
      .arr _ (List.forall_mem_map.2 hrules), List.forall_mem_nil _⟩
  have hrun : (Json.obj [("tool", .obj [("driver", .obj [("name", .str "clang-tidy"),
      ("informationUri", .str "https://clang.llvm.org/extra/clang-tidy/"),
      ("rules", .arr (d.rules.map Rule.toJson))])]),
      ("results", .arr (d.results.map Result.toJson)),
      ("columnKind", .str "utf16CodeUnits")]).Sealed := by
    refine .obj _ (by simp) ?_
    simp only [List.forall_mem_cons]
    exact ⟨.obj _ (by simp) (List.forall_mem_singleton.2 hdriver),
      .arr _ (List.forall_mem_map.2 hresults), .str _ (by simp [Escapable]),
      List.forall_mem_nil _⟩
  refine .obj _ (by simp) ?_
  simp only [List.forall_mem_cons]
  exact ⟨.str _ (by simp [Escapable]), .str _ (by simp [Escapable]),
    .arr _ (List.forall_mem_singleton.2 hrun), List.forall_mem_nil _⟩

/-- The document of diagnostics is sealed if all line breaks in their texts and in the directory are
escaped. -/
theorem Document.sealed_ofDiagnostics {diagnostics : List Diagnostic} (hbase : Escapable base)
    (h : ∀ d ∈ diagnostics, d.Escapable) :
    (ofDiagnostics diagnostics base).2.toJson.Sealed := by
  refine sealed_toJson ?_ ?_
  · rw [ofDiagnostics_rules]
    intro rule hrule
    obtain ⟨id, hid, rfl⟩ := List.mem_map.1 hrule
    obtain ⟨d, hd, rfl⟩ := List.mem_map.1 (List.mem_eraseDups.1 hid)
    exact Rule.sealed_describe (h d hd).rule
  · rw [ofDiagnostics_results]
    intro result hresult
    obtain ⟨d, hd, rfl⟩ := List.mem_map.1 hresult
    exact Result.sealed_ofDiagnostic hbase (h d hd)

/-! ## The shortest document -/

/-- `byteCount cs` is the number of bytes that the characters `cs` take up. -/
def byteCount (cs : List Char) : Nat :=
  (String.ofList cs).utf8ByteSize

theorem byteCount_append (before after : List Char) :
    byteCount (before ++ after) = byteCount before + byteCount after := by
  unfold byteCount
  rw [String.ofList_append, String.utf8ByteSize_append]

theorem byteCount_cons (c : Char) (cs : List Char) :
    byteCount (c :: cs) = c.utf8Size + byteCount cs := by
  rw [← List.singleton_append, byteCount_append]
  simp [byteCount]

/-- No array is shorter than the empty one. -/
theorem byteCount_write_arr (depth : Nat) (items : List Json) :
    byteCount ['[', ']'] ≤ byteCount (Json.write depth (.arr items)) := by
  cases items with
  | nil => exact Nat.le_refl _
  | cons item items =>
      simp only [Json.write, byteCount_append, byteCount_cons]
      omega

/-- No document is shorter than that of no diagnostics. -/
theorem Document.size_render_le (d : Document) (base : String) :
    (Sarif.render [] base).toUTF8.size ≤ d.render.toUTF8.size := by
  have hrules := byteCount_write_arr 5 (d.rules.map Rule.toJson)
  have hresults := byteCount_write_arr 3 (d.results.map Result.toJson)
  show byteCount (Json.write 0 (toJson ⟨[], []⟩)) ≤ byteCount (Json.write 0 d.toJson)
  -- The brackets, names and fixed values around the two arrays are the same in both texts.
  simp only [toJson, Json.write, Json.writeMembers, Json.writeItems, List.map_nil,
    byteCount_append, byteCount_cons, Nat.zero_add, Nat.reduceAdd] at hrules hresults ⊢
  omega

/-! ## Converting a document -/

/-- A file that holds no diagnostic is converted to the document of no diagnostics. -/
theorem convert_of_no_diagnostics {fs : FileSystem} {source output text : String}
    (hread : fs.readText source = .ok text) (hnone : (Scan.ofText text).diagnostics = [])
    (hcurrent : fs.Resolvable) (hout : fs.Writable output) :
    ∃ skipped here place result next,
      fs.convert source output = (⟨[.scanned 0 skipped, .built 0 0], result⟩, next) ∧
      fs.currentDirectory = .ok here ∧ fs.target output = .ok place ∧
      (fs.HasRoom place (render [] here) →
        result = .ok 0 ∧ fs.Written place (render [] here) next) ∧
      (¬ fs.HasRoom place (render [] here) →
        result = .error (.writeOutput output .storageFull) ∧
          fs.CutShort place (render [] here) next) := by
  obtain ⟨here, hhere⟩ := FileSystem.resolvable_iff.1 hcurrent
  obtain ⟨place, hplace⟩ := FileSystem.writable_iff.1 hout
  have hscan : Scan.ofText text = ⟨[], (Scan.ofText text).skipped⟩ := by
    rw [← hnone]
  obtain ⟨hevents, hend⟩ := FileSystem.convert_of_target hread hhere hplace
  rw [hscan] at hevents hend
  obtain ⟨hroom, hok, hwritten⟩ | ⟨hroom, herror, hcut⟩ := hend
  · have hconvert : fs.convert source output =
        (⟨[.scanned 0 (Scan.ofText text).skipped, .built 0 0], .ok 0⟩, _) :=
      Prod.ext (congrArg₂ Conversion.mk hevents hok) rfl
    exact ⟨_, here, place, _, _, hconvert, hhere, hplace, fun _ => ⟨rfl, hwritten⟩,
      fun hnone => absurd hroom hnone⟩
  · have hconvert : fs.convert source output =
        (⟨[.scanned 0 (Scan.ofText text).skipped, .built 0 0], .error _⟩, _) :=
      Prod.ext (congrArg₂ Conversion.mk hevents herror) rfl
    exact ⟨_, here, place, _, _, hconvert, hhere, hplace, fun hall => absurd hall hroom,
      fun _ => ⟨rfl, hcut⟩⟩

/-- No diagnostic is found in the document of any diagnostics, whatever their texts hold, as long as
none of them and no part of the directory holds a line break that JSON does not escape. The
diagnostics of a text never do. So a document that is converted again, in place or not, gives the
document of no diagnostics, or as much of it as there is room for. In place there is room. -/
theorem render_inert (base : String) (hbase : Escapable base) :
    (∀ diagnostics : List Diagnostic, (∀ d ∈ diagnostics, d.Escapable) →
      (Scan.ofText (render diagnostics base)).diagnostics = []) ∧
    ∀ (text : String) (fs : FileSystem) (source output : String),
      fs.readText source = .ok (render (Scan.ofText text).diagnostics base) →
      fs.Resolvable → fs.Writable output →
      ∃ skipped here place result next,
        fs.convert source output = (⟨[.scanned 0 skipped, .built 0 0], result⟩, next) ∧
        fs.currentDirectory = .ok here ∧ fs.target output = .ok place ∧
        (fs.HasRoom place (render [] here) →
          result = .ok 0 ∧ fs.Written place (render [] here) next) ∧
        (¬ fs.HasRoom place (render [] here) →
          result = .error (.writeOutput output .storageFull) ∧
            fs.CutShort place (render [] here) next) ∧
        (fs.target source = .ok place → fs.HasRoom place (render [] here)) := by
  have hinert : ∀ diagnostics : List Diagnostic, (∀ d ∈ diagnostics, d.Escapable) →
      (Scan.ofText (render diagnostics base)).diagnostics = [] := fun diagnostics h =>
    Scan.diagnostics_print (Document.sealed_ofDiagnostics hbase h)
  refine ⟨hinert, fun text fs source output hread hcurrent hout => ?_⟩
  have hnone := hinert (Scan.ofText text).diagnostics fun d hd => Scan.escapable_of_mem hd
  obtain ⟨skipped, here, place, result, next, hconvert, hhere, hplace, hall, hpart⟩ :=
    convert_of_no_diagnostics hread hnone hcurrent hout
  refine ⟨skipped, here, place, result, next, hconvert, hhere, hplace, hall, hpart, fun hsame => ?_⟩
  exact FileSystem.hasRoom_of_readText hsame hread (Document.size_render_le _ here)

/-- The message of a diagnostic is a whole diagnostic line, once beside a file that is one too and
ends with a line feed, and once in a text. The document of that text is converted in place. -/
theorem render_inert_embedded_line :
    let line := "b.c:2:2: error: y [s]"
    let d : Diagnostic := ⟨"a.c:1:1: error: x [r]\n", 0, 0, .note, line, "t [u\r"⟩
    let text := "a.c:1:1: note: b.c:2:2: error: y [s] [r]"
    let document := render (Scan.ofText text).diagnostics "/work"
    let fs := FileSystem.fresh.set ["doc", "work"] (.file document.toUTF8)
    (Diagnostic.ofLine? line.toList).isSome ∧ d.Escapable ∧
      (Scan.ofText text).diagnostics = [⟨"a.c", 0, 0, .note, line, "r"⟩] ∧
      (Scan.ofText (render [d] "/work")).diagnostics = [] ∧
      ∃ skipped next,
        fs.convert "doc" "./doc" = (⟨[.scanned 0 skipped, .built 0 0], .ok 0⟩, next) ∧
        next.readText "doc" = .ok (render [] "/work") := by
  intro line d text document fs
  have hline : (Diagnostic.ofLine? line.toList).isSome := by
    decide +kernel
  have hscan : (Scan.ofText text).diagnostics = [⟨"a.c", 0, 0, .note, line, "r"⟩] := by
    decide +kernel
  have hd : d.Escapable := by
    constructor <;> simp [d, line, Escapable]
  have hbase : Escapable "/work" := by
    simp [Escapable]
  have hnode : fs.node? ["doc", "work"] = some (.file document.toUTF8) :=
    FileSystem.node?_set_self _ _ _
  have hsource : fs.target "doc" = .ok ["doc", "work"] := by
    decide +kernel
  have houtput : fs.target "./doc" = .ok ["doc", "work"] := by
    decide +kernel
  obtain ⟨hnone, hconvert⟩ := render_inert "/work" hbase
  obtain ⟨skipped, here, place, result, next, h, hhere, hplace, hall, -, hroom⟩ :=
    hconvert text fs "doc" "./doc" (FileSystem.readText_of_target hsource hnode)
      (FileSystem.resolvable_iff.2 ⟨"/work", rfl⟩) (FileSystem.writable_iff.2 ⟨_, houtput⟩)
  obtain rfl : here = "/work" := Except.ok.inj (hhere.symm.trans rfl)
  obtain rfl : place = ["doc", "work"] := Except.ok.inj (hplace.symm.trans houtput)
  obtain ⟨rfl, hwritten⟩ := hall (hroom hsource)
  refine ⟨hline, hd, hscan, hnone [d] (List.forall_mem_singleton.2 hd), skipped, next, h, ?_⟩
  exact (hwritten.content (by simp [hnode])).2 "doc" hsource

end Sarif

end LintSarif
