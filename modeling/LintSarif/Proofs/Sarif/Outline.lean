import LintSarif.Proofs.Json.Outline
import LintSarif.Proofs.Sarif.Integrity
import LintSarif.Sarif.Encoding
import Mathlib.Data.Finset.Card

/-!
# The outline of a document

What the strings and the numbers of a document are makes no difference to its lines. Read
`render_outline` first: the number of lines of a document and the indentation of each of them follow
from the number of its results and the number of its rules.
-/

namespace LintSarif.Sarif

/-- The indentations of the lines of a rule behind its first. -/
def Rule.outline : List Nat :=
  [14, 14, 14, 16, 14, 14, 16, 14, 14, 16, 14, 14, 16, 14, 12]

/-- The indentations of the lines of a result with one location behind its first. -/
def Result.outline : List Nat :=
  [10, 10, 10, 12, 10, 10, 12, 14, 16, 18, 16, 16, 18, 18, 16, 14, 12, 10, 8]

/-- `Document.outline rules results` are the indentations of the lines behind the first of a
document with that many rules and results. -/
def Document.outline (rules results : Nat) : List Nat :=
  [2, 2, 2, 4, 6, 8, 10, 10, 10] ++ Json.arrayOutline 5 Rule.outline rules ++ [8, 6, 6] ++
    Json.arrayOutline 3 Result.outline results ++ [6, 4, 2, 0]

/-- A document with results has rules and the other way round, so two lines open and close its lists
or none does. -/
theorem Document.length_outline {rules results : Nat} (h : rules = 0 ↔ results = 0) :
    (outline rules results).length =
      if results = 0 then 16 else 18 + 20 * results + 16 * rules := by
  have hrule : Rule.outline.length = 15 := rfl
  have hresult : Result.outline.length = 19 := rfl
  unfold outline
  simp only [List.length_append, Json.length_arrayOutline, hrule, hresult, List.length_cons,
    List.length_nil]
  by_cases hresults : results = 0
  · rw [if_pos hresults, if_pos hresults, if_pos (h.2 hresults)]
  · rw [if_neg hresults, if_neg hresults, if_neg (mt h.1 hresults)]
    omega

theorem Rule.outline_toJson (r : Rule) : r.toJson.outline 6 = outline := rfl

theorem Result.outline_ofDiagnostic (base : String) (d : Diagnostic) :
    (ofDiagnostic base d).toJson.outline 4 = outline := rfl

/-- A document describes as many rules as its diagnostics violate. -/
theorem Document.length_rules (diagnostics : List Diagnostic) (base : String) :
    (ofDiagnostics diagnostics base).2.rules.length =
      (diagnostics.map Diagnostic.rule).toFinset.card := by
  have hsame : (diagnostics.map Diagnostic.rule).eraseDups.toFinset =
      (diagnostics.map Diagnostic.rule).toFinset := by
    ext id
    rw [List.mem_toFinset, List.mem_toFinset, List.mem_eraseDups]
  rw [ofDiagnostics_rules, List.length_map, ← hsame,
    List.toFinset_card_of_nodup (nodup_eraseDups _)]

/-- The lines of a document are those of its rules and its results, between lines of its own. -/
theorem Document.outline_toJson (d : Document) :
    d.toJson.outline 0 =
      [2, 2, 2, 4, 6, 8, 10, 10, 10] ++ (Json.arr (d.rules.map Rule.toJson)).outline 5 ++
        [8, 6, 6] ++ (Json.arr (d.results.map Result.toJson)).outline 3 ++ [6, 4, 2, 0] := by
  simp [toJson, Json.outline, Json.membersOutline, Json.itemsOutline]

/-- The lines of the document of any diagnostics follow from their number and the number of their
rules. -/
theorem Document.outline_ofDiagnostics (diagnostics : List Diagnostic) (base : String) :
    (ofDiagnostics diagnostics base).2.toJson.outline 0 =
      outline (diagnostics.map Diagnostic.rule).toFinset.card diagnostics.length := by
  have hrules := Json.outline_arr_map 5 Rule.outline_toJson (ofDiagnostics diagnostics base).2.rules
  have hresults := Json.outline_arr_map 3 (Result.outline_ofDiagnostic base) diagnostics
  rw [length_rules] at hrules
  rw [outline_toJson, hrules, ofDiagnostics_results, List.map_map]
  exact congrArg (_ ++ · ++ _) hresults

/-- The text of the document of any diagnostics has no control characters but line feeds, and the
number of these follows from the number of diagnostics and the number of their rules. So does the
indentation of every line. The text starts with the opening brace and ends with the closing one. -/
theorem render_outline (diagnostics : List Diagnostic) (base : String) :
    let text := (render diagnostics base).toList
    let rules := (diagnostics.map Diagnostic.rule).toFinset.card
    (∀ c ∈ text, c < ' ' → c = '\n') ∧
      (text.count '\n' =
        if diagnostics.length = 0 then 16 else 18 + 20 * diagnostics.length + 16 * rules) ∧
      Json.indents text = Document.outline rules diagnostics.length ∧
      text.head? = some '{' ∧ text.getLast? = some '}' := by
  intro text rules
  have htext : text = Json.write 0 (Document.ofDiagnostics diagnostics base).2.toJson :=
    String.toList_ofList
  have hlines : Json.Outlined (Document.outline rules diagnostics.length) text := by
    rw [htext, ← Document.outline_ofDiagnostics]
    exact Json.outlined_write 0 _
  refine ⟨hlines.noControl, ?_, hlines.indents, ?_, ?_⟩
  · have hnone : rules = 0 ↔ diagnostics.length = 0 := by
      rw [Finset.card_eq_zero, List.toFinset_eq_empty_iff, List.map_eq_nil_iff,
        List.length_eq_zero_iff]
    rw [← Json.length_indents, hlines.indents, Document.length_outline hnone]
  · rw [htext]
    rfl
  · rw [htext, Document.toJson, Json.write]
    exact List.getLast?_concat

end LintSarif.Sarif
