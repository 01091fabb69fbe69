import LintSarif.Diagnostic.Printer
import LintSarif.Proofs.Diagnostic.LineEndings
import LintSarif.Proofs.Diagnostic.WellFormed
import LintSarif.Proofs.Text.Numeral
import LintSarif.Sarif.Encoding

/-!
# The canonical text of a scan

A line without a line feed states an unambiguous diagnostic only (`LineForm.Reads.unambiguous`), so
the canonical line of the diagnostic is read back as the same diagnostic. Pieces of a text hold no
line feed, and `Scan.ofText_canonicalText` concludes that nothing is lost when a text is replaced by
the canonical lines of its diagnostics. A line with line feeds can state an ambiguous diagnostic.
-/

namespace LintSarif

/-- No field of `d` holds a line break. -/
structure Diagnostic.Unbroken (d : Diagnostic) : Prop where
  file : ∀ c ∈ d.file.toList, Text.isLineBreak c = false
  message : ∀ c ∈ d.message.toList, Text.isLineBreak c = false
  rule : ∀ c ∈ d.rule.toList, Text.isLineBreak c = false

/-! ## What a line can state -/

namespace LineForm

variable {f : LineForm} {cs : List Char}

/-- A line without a line feed states an unambiguous diagnostic. -/
theorem Reads.unambiguous (h : f.Reads cs) (hfeed : '\n' ∉ cs) : f.diagnostic.Unambiguous := by
  have hwell := h.wellFormed
  obtain ⟨hvalid, rfl, -⟩ := id h
  -- The blanks of a header may hold a line feed, and the file could then hold a whole header.
  have hheader : '\n' ∉ f.toHeaderForm.text := by
    intro hmem
    exact hfeed (List.mem_append_left _ (List.mem_append_right _ hmem))
  have hoccurs := h.not_occursIn_file hvalid rfl hheader
  refine ⟨hwell.file, ?_, hwell.message, hwell.message_start, hwell.message_end,
    hwell.message_brackets, hwell.rule⟩
  simpa only [diagnostic, String.toList_ofList] using hoccurs

/-- With a line feed in front of the severity, a whole header can stand in the file. -/
example :
    Diagnostic.ofLine? "a:1:1: note: b:2:2:\nerror: m [r]".toList =
      some ⟨"a:1:1: note: b", 1, 1, .error, "m", "r"⟩ := by
  decide +kernel

/-- The fields of the diagnostic that a line states are stretches of the line. -/
theorem Reads.unbroken (h : f.Reads cs) (hcs : ∀ c ∈ cs, Text.isLineBreak c = false) :
    f.diagnostic.Unbroken := by
  obtain ⟨-, rfl, -⟩ := h
  constructor <;> intro c hc <;>
    simp only [diagnostic, String.toList_ofList] at hc <;>
    exact hcs c (by simp [text, BodyForm.text, hc])

/-- Numbers that fit give a position in range. -/
theorem Fits.inRange (h : f.Fits) : f.diagnostic.InRange := by
  obtain ⟨hline, hcolumn⟩ := h
  simp only [Diagnostic.InRange, diagnostic]
  omega

end LineForm

/-! ## The canonical line -/

namespace Diagnostic

variable {d : Diagnostic}

/-- `d.canonical` is the spelling with single blanks and no leading zeros. -/
def canonical (d : Diagnostic) : Spelling where
  lineDigits := Text.Numeral.ofInt (d.line + 1)
  columnDigits := Text.Numeral.ofInt (d.column + 1)
  severityGap := [' ']
  messageGap := [' ']
  ruleGap := [' ']
  ending := []

theorem form_canonical_text (d : Diagnostic) : (d.form d.canonical).text = d.toLine := by
  simp [form, canonical, LineForm.text, HeaderForm.text, BodyForm.text, toLine]

/-- The canonical spelling spells every diagnostic in range. -/
theorem canonical_spells (h : d.InRange) : d.canonical.Spells d := by
  obtain ⟨⟨hline, -⟩, hcolumn, -⟩ := h
  obtain ⟨hlne, hldigits, hlvalue⟩ := Text.Numeral.ofInt_of_nonneg (n := d.line + 1) (by omega)
  obtain ⟨hcne, hcdigits, hcvalue⟩ := Text.Numeral.ofInt_of_nonneg (n := d.column + 1) (by omega)
  have hblank : Text.isBlank ' ' = true := by
    decide
  constructor
  · exact ⟨hlne, hldigits⟩
  · exact hlvalue
  · exact ⟨hcne, hcdigits⟩
  · exact hcvalue
  all_goals simp [canonical, hblank]

/-- The canonical line of an unambiguous diagnostic is read back as the diagnostic. -/
theorem Unambiguous.ofLine?_toLine (h : d.Unambiguous) (hrange : d.InRange) :
    ofLine? d.toLine = some d := by
  rw [← form_canonical_text]
  exact h.ofLine?_form (canonical_spells hrange) hrange

/-- The word of a severity holds no line break. -/
theorem token_unbroken (s : Severity) : ∀ c ∈ s.token.toList, Text.isLineBreak c = false := by
  cases s <;> simp [Severity.token, Text.isLineBreak, Text.lineBreaks]

/-- The canonical line of a diagnostic in range is one line if its fields are. -/
theorem Unbroken.toLine (h : d.Unbroken) (hrange : d.InRange) :
    ∀ c ∈ d.toLine, Text.isLineBreak c = false := by
  have hspells := canonical_spells hrange
  have hline : ∀ c ∈ Text.Numeral.ofInt (d.line + 1), Text.isLineBreak c = false :=
    fun c hc => Text.isLineBreak_of_isDigit (hspells.lineDigits.2 c hc)
  have hcolumn : ∀ c ∈ Text.Numeral.ofInt (d.column + 1), Text.isLineBreak c = false :=
    fun c hc => Text.isLineBreak_of_isDigit (hspells.columnDigits.2 c hc)
  have hword := token_unbroken d.severity
  have hmarks : ∀ c ∈ [':', ' ', '[', ']'], Text.isLineBreak c = false := by
    simp [Text.isLineBreak, Text.lineBreaks]
  intro c hc
  simp only [Diagnostic.toLine, List.mem_append, List.mem_cons, List.not_mem_nil] at hc
  grind [h.file, h.message, h.rule]

end Diagnostic

/-! ## Scanning the canonical text -/

namespace Scan

open Diagnostic

variable {text : String} {d : Diagnostic} {ds : List Diagnostic}

/-- Every diagnostic of a text is what one of its pieces states. -/
theorem exists_reads_of_mem (h : d ∈ (ofText text).diagnostics) :
    ∃ piece ∈ Text.pieces text.toList, ∃ f : LineForm,
      f.Reads piece ∧ f.Fits ∧ f.diagnostic = d := by
  unfold ofText at h
  rw [diagnostics_ofPieces, List.mem_filterMap] at h
  obtain ⟨piece, hpiece, hread⟩ := h
  exact ⟨piece, hpiece, ofLine?_eq_some_iff.1 hread⟩

/-- Lines that are read back as the diagnostics they were written for leave nothing to skip. -/
theorem ofPieces_map_toLine (h : ∀ d ∈ ds, ofLine? d.toLine = some d) :
    ofPieces (ds.map toLine) = ⟨ds, 0⟩ := by
  induction ds with
  | nil => rfl
  | cons d ds ih =>
      obtain ⟨hd, hds⟩ := List.forall_mem_cons.1 h
      rw [List.map_cons, ofPieces_cons, ih hds, cons, hd]

/-- The canonical text of diagnostics in range is scanned as these diagnostics when they are
unambiguous and hold no line break. -/
theorem ofText_canonicalText_of (h : ∀ d ∈ ds, d.Unambiguous ∧ d.InRange ∧ d.Unbroken) :
    ofText (canonicalText ds) = ⟨ds, 0⟩ := by
  unfold ofText canonicalText
  rw [String.toList_ofList]
  by_cases hne : ds = []
  · -- The text of no lines is empty and has one piece, which is blank.
    subst hne
    rw [List.map_nil, List.intercalate_nil, Text.pieces_nil]
    exact cons_nil empty
  · have hunbroken : ∀ line ∈ ds.map toLine, ∀ c ∈ line, Text.isLineBreak c = false := by
      intro line hline
      obtain ⟨d, hd, rfl⟩ := List.mem_map.1 hline
      exact (h d hd).2.2.toLine (h d hd).2.1
    rw [Text.pieces_intercalate (mt List.map_eq_nil_iff.1 hne) hunbroken]
    exact ofPieces_map_toLine fun d hd => (h d hd).1.ofLine?_toLine (h d hd).2.1

/-- When a text is replaced by the canonical lines of its diagnostics, every line is read and the
diagnostics stay the same, so the documents are the same too. No field of a diagnostic of a text
holds a line break. -/
theorem ofText_canonicalText (text : String) :
    let found := (ofText text).diagnostics
    ofText (canonicalText found) = ⟨found, 0⟩ ∧
      (∀ base, Sarif.render (ofText (canonicalText found)).diagnostics base =
        Sarif.render found base) ∧
      ∀ d ∈ found, d.Unbroken := by
  intro found
  have hfound : ∀ d ∈ found, d.Unambiguous ∧ d.InRange ∧ d.Unbroken := by
    intro d hd
    obtain ⟨piece, hpiece, f, hreads, hfits, rfl⟩ := exists_reads_of_mem hd
    have hunbroken := Text.unbroken_of_mem_pieces hpiece
    have hfeed : '\n' ∉ piece := fun hmem => absurd (hunbroken '\n' hmem) (by decide)
    exact ⟨hreads.unambiguous hfeed, hfits.inRange, hreads.unbroken hunbroken⟩
  have hscan := ofText_canonicalText_of hfound
  refine ⟨hscan, fun base => ?_, fun d hd => (hfound d hd).2.2⟩
  rw [hscan]

end Scan

end LintSarif
