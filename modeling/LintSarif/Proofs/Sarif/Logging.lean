import LintSarif.Proofs.Diagnostic.Reading
import LintSarif.Proofs.Sarif.Merging

/-!
# The log of a document

What is logged while a text is scanned and its document is built, entry by entry. Read `log_agrees`
first: the log tells the diagnostics, the rules of the document and the numbers of both, and what
the scan counts are all pieces of the text but the blank ones.
-/

namespace LintSarif

/-- What an event tells: its level, what happened, and the particulars. -/
structure Log.Entry where
  level : Log.Level
  message : String
  fields : List (String × Log.Value)
  deriving DecidableEq, Repr

/-- `e.entry` is what the event `e` tells. -/
def Log.Event.entry (e : Log.Event) : Log.Entry :=
  ⟨e.level, e.message, e.fields⟩

/-! ## What a scan counts -/

/-- A line that states a diagnostic is not blank: it holds colons. -/
theorem Diagnostic.isBlankText_of_ofLine? {piece : List Char} {d : Diagnostic}
    (h : ofLine? piece = some d) : Text.isBlankText piece = false := by
  obtain ⟨f, ⟨-, rfl, -⟩, -, -⟩ := ofLine?_eq_some_iff.1 h
  refine List.all_eq_false.2 ⟨':', ?_, by decide⟩
  simp [LineForm.text, HeaderForm.text]

namespace Scan

/-- `scan.counted` is the number of pieces that `scan` counts, as a diagnostic or as skipped. -/
def counted (scan : Scan) : Nat :=
  scan.diagnostics.length + scan.skipped

/-- One more piece is counted once, unless it is blank. -/
theorem counted_cons (piece : List Char) (scan : Scan) :
    (cons piece scan).counted = scan.counted + if Text.isBlankText piece then 0 else 1 := by
  unfold cons
  cases hread : Diagnostic.ofLine? piece with
  | some d =>
      rw [Diagnostic.isBlankText_of_ofLine? hread]
      simp only [counted, List.length_cons, Bool.false_eq_true, if_false]
      omega
  | none =>
      cases hblank : Text.isBlankText piece with
      | true => rfl
      | false =>
          simp only [counted, Bool.false_eq_true, if_false]
          omega

/-- The pieces that are not blank are counted, each once. -/
theorem counted_ofPieces (pieces : List (List Char)) :
    (ofPieces pieces).counted = pieces.countP fun piece => !Text.isBlankText piece := by
  induction pieces with
  | nil => rfl
  | cons piece pieces ih =>
      rw [ofPieces_cons, counted_cons, ih, List.countP_cons]
      cases Text.isBlankText piece <;> rfl

end Scan

namespace Sarif.Document

/-- `log text base` are the events of scanning `text` and of building its document, whose files are
looked up from the directory `base`. -/
def log (text base : String) : List Log.Event :=
  (Scan.ofText text).events ++ (ofDiagnostics (Scan.ofText text).diagnostics base).1

/-- The rules that are reported as new are those of the document, in their order. -/
theorem ofDiagnostics_events (diagnostics : List Diagnostic) (base : String) :
    let built := ofDiagnostics diagnostics base
    built.1 = built.2.rules.map (fun rule => .newRule rule.id) ++
      [.built built.2.results.length built.2.rules.length] := by
  intro built
  have hrules : built.2.rules = _ := ofDiagnostics_rules diagnostics base
  have hnew := Catalog.records_empty.register_events (diagnostics.map Diagnostic.rule)
  rw [List.eraseDups_nil, List.map_nil, List.nil_append, List.nil_append] at hnew
  have hevents : built.1 = (Catalog.empty.register (diagnostics.map Diagnostic.rule)).1 ++
      [.built built.2.results.length built.2.rules.length] := by
    have hbuilt : built = _ := ofDiagnostics_eq diagnostics base
    rw [hbuilt]
    rfl
  rw [hevents, hnew, hrules, List.map_map]
  rfl

/-- The log of a text has one entry for each diagnostic, then one for the scan, then one for each
rule of the document and at last one for the document, and each of them tells what was found. The
scan counts every piece that is not blank exactly once, as a diagnostic or as skipped. -/
theorem log_agrees (text base : String) :
    let scan := Scan.ofText text
    let document := ofText text base
    (log text base).map Log.Event.entry =
      scan.diagnostics.map (fun d => ⟨.trace, "parsed diagnostic",
        [("file", .text d.file), ("line", .number d.line), ("column", .number d.column),
          ("severity", .text d.severity.token), ("rule", .text d.rule)]⟩) ++
      [⟨.debug, "diagnostic lines scanned",
        [("parsed", .number scan.diagnostics.length), ("skipped", .number scan.skipped)]⟩] ++
      document.rules.map (fun rule => ⟨.debug, "new rule", [("rule", .text rule.id)]⟩) ++
      [⟨.info, "built sarif run",
        [("results", .number document.results.length),
          ("rules", .number document.rules.length)]⟩] ∧
    scan.diagnostics.length + scan.skipped =
      (Text.pieces text.toList).countP fun piece => !Text.isBlankText piece := by
  intro scan document
  constructor
  · have hbuilt : (ofDiagnostics scan.diagnostics base).1 = _ :=
      ofDiagnostics_events scan.diagnostics base
    unfold log Scan.events
    rw [hbuilt]
    simp only [List.map_append, List.map_map, List.append_assoc]
    rfl
  · exact Scan.counted_ofPieces (Text.pieces text.toList)

end Sarif.Document

end LintSarif
