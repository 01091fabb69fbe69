import LintSarif.Json.Printer
import LintSarif.Sarif.Document

/-!
# SARIF documents as JSON

The members of each object stand in a fixed order. `render` writes the document of a list of
diagnostics as text.
-/

namespace LintSarif.Sarif

/-- A message is an object around its text. -/
def messageToJson (text : String) : Json :=
  .obj [("text", .str text)]

/-- `r.toJson` is the reporting descriptor of the rule `r`. -/
def Rule.toJson (r : Rule) : Json :=
  .obj [
    ("id", .str r.id),
    ("name", .str r.name),
    ("shortDescription", messageToJson r.shortDescription),
    ("fullDescription", messageToJson r.fullDescription),
    ("help", messageToJson r.help),
    ("defaultConfiguration", .obj [("level", .str r.defaultLevel.name)])]

/-- `l.toJson` is the location object of `l`. -/
def Location.toJson (l : Location) : Json :=
  .obj [("physicalLocation", .obj [
    ("artifactLocation", .obj [("uri", .str l.uri)]),
    ("region", .obj [("startLine", .int l.startLine), ("startColumn", .int l.startColumn)])])]

/-- `r.toJson` is the result object of `r`. -/
def Result.toJson (r : Result) : Json :=
  .obj [
    ("ruleId", .str r.ruleId),
    ("level", .str r.level.name),
    ("message", messageToJson r.message),
    ("locations", .arr (r.locations.map Location.toJson))]

/-- `d.toJson` is the whole document `d`, whose one run is that of the linter. Columns count
UTF-16 code units. -/
def Document.toJson (d : Document) : Json :=
  .obj [
    ("$schema", .str "https://json.schemastore.org/sarif-2.1.0.json"),
    ("version", .str "2.1.0"),
    ("runs", .arr [.obj [
      ("tool", .obj [("driver", .obj [
        ("name", .str "clang-tidy"),
        ("informationUri", .str "https://clang.llvm.org/extra/clang-tidy/"),
        ("rules", .arr (d.rules.map Rule.toJson))])]),
      ("results", .arr (d.results.map Result.toJson)),
      ("columnKind", .str "utf16CodeUnits")]])]

/-- `d.render` is the text of the document `d`. -/
def Document.render (d : Document) : String :=
  d.toJson.print

/-- The bytes of a document start with those of its brace and of the quote in front of its first
name. -/
theorem Document.exists_toUTF8_render_eq (d : Document) :
    ∃ rest, d.render.toUTF8 = "\x7b\n  \"".toUTF8 ++ rest ∧ rest ≠ .empty := by
  obtain ⟨cs, hwrite⟩ : ∃ cs, Json.write 0 d.toJson = "\x7b\n  \"".toList ++ '$' :: cs :=
    ⟨_, rfl⟩
  have hrender : d.render = "\x7b\n  \"" ++ String.ofList ('$' :: cs) := by
    rw [render, Json.print, hwrite, String.ofList_append, String.ofList_toList]
  refine ⟨(String.ofList ('$' :: cs)).toUTF8, ?_, fun hempty => ?_⟩
  · rw [hrender]
    exact String.toByteArray_append
  · have hnone : String.ofList ('$' :: cs) = "" := String.toByteArray_inj.1 hempty
    simp at hnone

/-- No document is empty. -/
theorem Document.render_ne_empty (d : Document) : d.render ≠ "" := by
  intro hempty
  obtain ⟨rest, hrender, hrest⟩ := d.exists_toUTF8_render_eq
  rw [hempty] at hrender
  exact hrest (ByteArray.append_eq_empty_iff.1 hrender.symm).2

/-- `render diagnostics base` is the text of the document of the diagnostics. -/
def render (diagnostics : List Diagnostic) (base : String) : String :=
  (Document.ofDiagnostics diagnostics base).2.render

end LintSarif.Sarif
