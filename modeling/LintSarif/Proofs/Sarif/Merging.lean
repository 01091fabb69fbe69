import LintSarif.Proofs.Sarif.Integrity

/-!
# Documents of merged logs

Two logs with a line break between them give the document of both: read `ofText_append_break` first.
The results follow each other, the rules of the second log follow those of the first unless they are
among them, and the counts of the scan add up.
-/

namespace LintSarif

/-- Pieces are scanned one after the other. -/
theorem Scan.ofPieces_append (before after : List (List Char)) :
    ofPieces (before ++ after) =
      ⟨(ofPieces before).diagnostics ++ (ofPieces after).diagnostics,
        (ofPieces before).skipped + (ofPieces after).skipped⟩ := by
  rw [Scan.mk.injEq]
  simp only [diagnostics_ofPieces, skipped_ofPieces, List.filterMap_append, List.countP_append,
    and_self]

/-- A text with a line break in it is scanned up to the break and from there on. -/
theorem Scan.ofText_append_break (a b : String) {c : Char} (hc : Text.isLineBreak c = true) :
    ofText (a ++ String.singleton c ++ b) =
      ⟨(ofText a).diagnostics ++ (ofText b).diagnostics,
        (ofText a).skipped + (ofText b).skipped⟩ := by
  have htext : (a ++ String.singleton c ++ b).toList = a.toList ++ c :: b.toList := by
    simp
  unfold ofText
  rw [htext, Text.pieces_append_cons _ _ hc, ofPieces_append]

namespace Sarif.Document

/-- `ofText text base` is the document of the diagnostics in `text`, whose files are looked up from
the directory `base`. -/
def ofText (text base : String) : Document :=
  (ofDiagnostics (Scan.ofText text).diagnostics base).2

/-- The rules of two lists of diagnostics are those of the first and the new ones of the second. -/
theorem ofDiagnostics_rules_append (before after : List Diagnostic) (base : String) :
    (ofDiagnostics (before ++ after) base).2.rules =
      (ofDiagnostics before base).2.rules ++
        (ofDiagnostics after base).2.rules.filter fun rule =>
          rule.id ∉ (ofDiagnostics before base).2.ids := by
  have hids : (ofDiagnostics before base).2.ids = (before.map Diagnostic.rule).eraseDups := by
    rw [ids, ofDiagnostics_rules, List.map_map]
    exact List.map_id _
  rw [ofDiagnostics_rules, ofDiagnostics_rules, ofDiagnostics_rules, List.map_append,
    eraseDups_append_later, List.map_append, List.filter_map, hids]
  refine congrArg _ (congrArg _ (List.filter_congr fun id _ => decide_eq_decide.2 ?_))
  show id ∉ before.map Diagnostic.rule ↔ id ∉ (before.map Diagnostic.rule).eraseDups
  rw [List.mem_eraseDups]

/-- Two logs with a line break between them, whichever it is, give one document: the results of the
first and then those of the second, the rules of the first and then those of the second that are not
among them. The diagnostics found and the lines skipped are counted together. So what follows a log
neither changes nor moves what the log has given. -/
theorem merged_logs (a b base : String) {c : Char} (hc : Text.isLineBreak c = true) :
    let merged := a ++ String.singleton c ++ b
    (ofText merged base).results = (ofText a base).results ++ (ofText b base).results ∧
    (ofText merged base).rules = (ofText a base).rules ++
      (ofText b base).rules.filter (fun rule => rule.id ∉ (ofText a base).ids) ∧
    (Scan.ofText merged).diagnostics.length =
      (Scan.ofText a).diagnostics.length + (Scan.ofText b).diagnostics.length ∧
    (Scan.ofText merged).skipped = (Scan.ofText a).skipped + (Scan.ofText b).skipped := by
  intro merged
  have hscan := Scan.ofText_append_break a b hc
  have hdocument : ofText merged base =
      (ofDiagnostics ((Scan.ofText a).diagnostics ++ (Scan.ofText b).diagnostics) base).2 := by
    rw [ofText, hscan]
  refine ⟨?_, ?_, ?_, ?_⟩
  · rw [hdocument, ofText, ofText]
    simp only [ofDiagnostics_results, List.map_append]
  · rw [hdocument]
    exact ofDiagnostics_rules_append _ _ base
  · rw [hscan, List.length_append]
  · rw [hscan]

/-- The second log violates one rule of the first and one of its own. A line separator stands
between them. -/
theorem merged_logs_shared_rule :
    let a := "x:1:1: note: m [r]\nbanner"
    let b := "y:2:2: error: n [s]\nz:3:3: note: o [r]"
    let merged := a ++ String.singleton '\u2028' ++ b
    Text.isLineBreak '\u2028' = true ∧
    (ofText merged "/work").rules = [Rule.describe "r", Rule.describe "s"] ∧
    (ofText merged "/work").results.map Result.ruleId = ["r", "s", "r"] ∧
    (Scan.ofText merged).skipped = 1 := by
  intro a b merged
  have ha : Scan.ofText a = ⟨[⟨"x", 0, 0, .note, "m", "r"⟩], 1⟩ := by
    decide +kernel
  have hb : Scan.ofText b =
      ⟨[⟨"y", 1, 1, .error, "n", "s"⟩, ⟨"z", 2, 2, .note, "o", "r"⟩], 0⟩ := by
    decide +kernel
  have hbreak : Text.isLineBreak '\u2028' = true := by
    decide
  obtain ⟨hresults, hrules, -, hskipped⟩ := merged_logs a b "/work" hbreak
  refine ⟨hbreak, ?_, ?_, ?_⟩
  · rw [hrules, ids, ofText, ofText, ofDiagnostics_rules, ofDiagnostics_rules, ha, hb]
    decide +kernel
  · rw [hresults, ofText, ofText, ofDiagnostics_results, ofDiagnostics_results, ha, hb]
    rfl
  · rw [hskipped, ha, hb]
    rfl

end Sarif.Document

end LintSarif
