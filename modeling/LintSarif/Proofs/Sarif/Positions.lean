import LintSarif.Proofs.Diagnostic.Canonical
import LintSarif.Sarif.Document
import Mathlib.Algebra.Group.Int.Defs
import Mathlib.Algebra.Group.Nat.Defs
import Mathlib.Data.List.Forall2

/-!
# Positions from the line to the document

A position is read from two runs of digits, stored as numbers that are one less and shown in the
document as one more than stored. Read `positions_lossless` first: what is shown is what the line
says, signed 64-bit arithmetic suffices for all three steps, and a line whose preferred form holds
a number of 2^63 or more is passed over.
-/

namespace LintSarif.Sarif

open Text (Numeral.value)

/-- `Lossless digits stored shown` holds when `digits` are read as a number, stored as `stored` and
shown as `shown`, and each step gives the same in signed 64-bit arithmetic as it does in the
integers. -/
structure Lossless (digits : List Char) (stored shown : Int) : Prop where
  faithful : shown = Numeral.value digits
  read : (Int64.ofNat (Numeral.value digits)).toInt = Numeral.value digits
  decrement : (Int64.ofNat (Numeral.value digits) - 1).toInt = stored
  increment : (Int64.ofInt stored + 1).toInt = shown

/-- A number that can be read is kept. -/
theorem lossless_of_le {digits : List Char}
    (h : Numeral.value digits ≤ Diagnostic.maxPosition) :
    Lossless digits (Numeral.value digits - 1) (Numeral.value digits - 1 + 1) := by
  unfold Diagnostic.maxPosition at h
  have hone : Int64.ofInt 1 = 1 := rfl
  refine ⟨by omega, ?_, ?_, ?_⟩
  · exact Int64.toInt_ofNat_of_lt (by omega)
  · rw [← Int64.ofInt_eq_ofNat, ← hone, ← Int64.ofInt_sub]
    exact Int64.toInt_ofInt_of_le (by omega) (by omega)
  · rw [← hone, ← Int64.ofInt_add]
    exact Int64.toInt_ofInt_of_le (by omega) (by omega)

/-- `PositionKept line d result` holds when the diagnostic `d` and its result have the position that
`line` has in its preferred form. -/
def PositionKept (line : List Char) (d : Diagnostic) (result : Result) : Prop :=
  ∃ f : LineForm, f.Reads line ∧ ∃ place, result.locations = [place] ∧
    Lossless f.lineDigits d.line place.startLine ∧
    Lossless f.columnDigits d.column place.startColumn

/-- What a line states keeps its position. -/
theorem positionKept_of_ofLine? {line : List Char} {d : Diagnostic} (base : String)
    (h : Diagnostic.ofLine? line = some d) : PositionKept line d (Result.ofDiagnostic base d) := by
  obtain ⟨f, hreads, ⟨hline, hcolumn⟩, rfl⟩ := Diagnostic.ofLine?_eq_some_iff.1 h
  exact ⟨f, hreads, _, rfl, lossless_of_le hline, lossless_of_le hcolumn⟩

/-- The diagnostics found in some lines are those of the lines that state one. -/
theorem forall₂_filterMap_ofLine? (lines : List (List Char)) :
    List.Forall₂ (fun line d => Diagnostic.ofLine? line = some d)
      (lines.filter fun line => (Diagnostic.ofLine? line).isSome)
      (lines.filterMap Diagnostic.ofLine?) := by
  -- Both sides of the relation are one list of options.
  have h : (lines.filterMap Diagnostic.ofLine?).map some =
      (lines.filter fun line => (Diagnostic.ofLine? line).isSome).map Diagnostic.ofLine? := by
    rw [List.map_filterMap_some_eq_filter_map_isSome, List.filter_map]
    rfl
  rw [← List.forall₂_eq_eq_eq, List.forall₂_map_left_iff, List.forall₂_map_right_iff] at h
  exact h.flip.imp fun _ _ heq => heq.symm

/-- A line whose preferred form holds a number of 2^63 or more states no diagnostic. -/
theorem ofLine?_eq_none_of_le {line : List Char} {f : LineForm} (hreads : f.Reads line)
    (h : 2 ^ 63 ≤ Numeral.value f.lineDigits ∨ 2 ^ 63 ≤ Numeral.value f.columnDigits) :
    Diagnostic.ofLine? line = none := by
  have hfits : ¬ f.Fits := by
    unfold LineForm.Fits Diagnostic.maxPosition
    omega
  rw [Diagnostic.ofLine?_of_reads hreads, if_neg hfits]

/-- A line that states no diagnostic does not affect the lines around it. -/
theorem diagnostics_ofPieces_of_none {line : List Char} (h : Diagnostic.ofLine? line = none)
    (before after : List (List Char)) :
    (Scan.ofPieces (before ++ line :: after)).diagnostics =
      (Scan.ofPieces before).diagnostics ++ (Scan.ofPieces after).diagnostics := by
  simp only [Scan.diagnostics_ofPieces, List.filterMap_append, List.filterMap_cons, h]

/-- The diagnostics and the results of a text have the positions that its lines say, line by line,
and no number leaves the signed 64-bit range on the way. A line is passed over when a number in its
preferred form is too great, whichever other forms it has, and all other lines are read as if it
were not there. -/
theorem positions_lossless (text base : String) :
    let lines := Text.pieces text.toList
    let found := (Scan.ofText text).diagnostics
    let results := (Document.ofDiagnostics found base).2.results
    (∀ d ∈ found, (-1 ≤ d.line ∧ d.line ≤ 2 ^ 63 - 2) ∧ -1 ≤ d.column ∧ d.column ≤ 2 ^ 63 - 2) ∧
    (results.length = found.length ∧
      List.Forall₂ (fun line (d, result) => PositionKept line d result)
        (lines.filter fun line => (Diagnostic.ofLine? line).isSome) (found.zip results)) ∧
    ∀ before line after, lines = before ++ line :: after → ∀ f : LineForm, f.Reads line →
      2 ^ 63 ≤ Numeral.value f.lineDigits ∨ 2 ^ 63 ≤ Numeral.value f.columnDigits →
      Diagnostic.ofLine? line = none ∧
        found = (Scan.ofPieces before).diagnostics ++ (Scan.ofPieces after).diagnostics := by
  intro lines found results
  have hresults : results = found.map (Result.ofDiagnostic base) :=
    Document.ofDiagnostics_results found base
  have hlength : results.length = found.length := by
    rw [hresults, List.length_map]
  refine ⟨fun d hd => ?_, ⟨hlength, ?_⟩, fun before line after hlines f hreads hbig => ?_⟩
  · obtain ⟨_, -, f, -, hfits, rfl⟩ := Scan.exists_reads_of_mem hd
    have hrange := hfits.inRange
    simp only [Diagnostic.InRange, Diagnostic.maxPosition] at hrange
    omega
  · have hfound : found = lines.filterMap Diagnostic.ofLine? := Scan.diagnostics_ofPieces lines
    have hzip : found.zip results = found.map fun d => (d, Result.ofDiagnostic base d) := by
      rw [hresults]
      simpa using List.zip_map' (f := fun d => d) (g := Result.ofDiagnostic base) (l := found)
    rw [hzip, List.forall₂_map_right_iff, hfound]
    exact (forall₂_filterMap_ofLine? lines).imp fun _ _ => positionKept_of_ofLine? base
  · have hnone := ofLine?_eq_none_of_le hreads hbig
    refine ⟨hnone, ?_⟩
    show (Scan.ofPieces lines).diagnostics = _
    rw [hlines, diagnostics_ofPieces_of_none hnone]

/-- A line with a number that is too great is passed over although it has a second form, with a
longer file, whose numbers fit. The line in front of it keeps its position. -/
theorem positions_lossless_second_form :
    let line := "a:9223372036854775808:1: note: b:2:3: note: m [r]".toList
    let text := "c:0:07: error: e [s]\na:9223372036854775808:1: note: b:2:3: note: m [r]"
    ∃ f g : LineForm, f.Reads line ∧ 2 ^ 63 ≤ Numeral.value f.lineDigits ∧
      (g.Valid ∧ g.text = line ∧ g.Fits ∧ f.file.length < g.file.length) ∧
      Diagnostic.ofLine? line = none ∧
      (Scan.ofText text).diagnostics = [⟨"c", -1, 6, .error, "e", "s"⟩] := by
  intro line text
  -- `f` has the shorter file; `g` takes the first header into the file.
  let body : BodyForm := ⟨"b:2:3: note: m".toList, [' '], ['r'], []⟩
  let f : LineForm :=
    ⟨⟨"9223372036854775808".toList, ['1'], [' '], .note, [' ']⟩, body, ['a']⟩
  let g : LineForm :=
    ⟨⟨['2'], ['3'], [' '], .note, [' ']⟩, { body with message := ['m'] },
      "a:9223372036854775808:1: note: b".toList⟩
  have hf : f.Valid ∧ f.text = line := by
    decide +kernel
  have hg : g.Valid ∧ g.text = line ∧ g.Fits ∧ f.file.length < g.file.length := by
    decide +kernel
  have hbracket : '[' ∉ body.message := by
    decide
  -- No form of this text has a shorter file or a shorter message than `f`.
  have hend : ∀ c ∈ body.message.getLast?, Text.isBlank c = false := by
    simp [body, Text.isBlank, Text.blankRanges]
  have hreads : f.Reads f.text := by
    refine LineForm.reads_text hf.1 (HeaderForm.not_occursIn (by decide)) (by decide) ?_
    intro b hb htext
    refine BodyForm.length_message_le hb htext hend fun before after hmessage => ?_
    have hmessage' : body.message = before ++ '[' :: after := hmessage
    rw [hmessage'] at hbracket
    exact absurd (by simp) hbracket
  rw [hf.2] at hreads
  have hbig : 2 ^ 63 ≤ Numeral.value f.lineDigits := by
    decide
  have hlines : Text.pieces text.toList = ["c:0:07: error: e [s]".toList] ++ line :: [] := by
    decide +kernel
  obtain ⟨-, -, hpassed⟩ := positions_lossless text "/work"
  obtain ⟨hnone, hfound⟩ := hpassed _ line _ hlines f hreads (.inl hbig)
  refine ⟨f, g, hreads, hbig, hg, hnone, ?_⟩
  rw [hfound]
  decide +kernel

end LintSarif.Sarif
