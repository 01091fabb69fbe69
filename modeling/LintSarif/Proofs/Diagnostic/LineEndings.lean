import LintSarif.Log.Event
import LintSarif.Proofs.Text.LineBreak
import LintSarif.Text.LineEndings

/-!
# Scanning does not depend on the line endings

A scan cuts its text at every line break, so that a carriage return and a line feed leave an empty
piece between them and an ending at the end of the text leaves one behind it. Empty pieces are no
diagnostics and are not counted either. Read `ofText_lineEndings` first: only the lines matter,
whichever endings they have.
-/

namespace LintSarif

/-! ## Taking a text apart into lines -/

namespace Text

theorem pieces_line (line : Line) : pieces line.text = [line.text] :=
  pieces_of_unbroken line.unbroken

/-- A line and its ending are cut off together, with an empty piece if the ending has two
characters. -/
theorem pieces_line_append (line : Line) (ending : LineEnd) (rest : List Char) :
    pieces (line.text ++ (ending.text ++ rest)) = line.text :: pieces rest ∨
      pieces (line.text ++ (ending.text ++ rest)) = line.text :: [] :: pieces rest := by
  cases ending with
  | single c isBreak =>
      left
      show pieces (line.text ++ c :: rest) = _
      rw [pieces_append_cons _ _ isBreak, pieces_line]
      rfl
  | returnFeed =>
      right
      show pieces (line.text ++ '\r' :: ([] ++ '\n' :: rest)) = _
      rw [pieces_append_cons _ _ (by decide), pieces_append_cons _ _ (by decide), pieces_line,
        pieces_nil]
      rfl

/-- An empty line in front of a text adds its ending. -/
theorem exists_joined_ending {cs : List Char} {texts : List (List Char)} (ending : LineEnd)
    (h : ∃ lines last, joined lines last = cs ∧ lineTexts lines last = texts) :
    ∃ lines last, joined lines last = ending.text ++ cs ∧ lineTexts lines last = [] :: texts := by
  obtain ⟨lines, last, rfl, rfl⟩ := h
  exact ⟨(⟨[], fun _ hc => absurd hc List.not_mem_nil⟩, ending) :: lines, last, rfl, rfl⟩

/-- Every text is joined from its lines and some endings. -/
theorem exists_joined (cs : List Char) :
    ∃ lines last, joined lines last = cs ∧ lineTexts lines last = splitLines cs := by
  fun_induction splitLines cs with
  | case1 => exact ⟨[], none, rfl, rfl⟩
  | case2 cs ih => exact exists_joined_ending .returnFeed ih
  | case3 c cs _ hbreak ih => exact exists_joined_ending (.single c hbreak) ih
  | case4 c cs _ hbreak hnil ih =>
      obtain ⟨lines, last, rfl, htexts⟩ := ih
      have hlines : lines = [] ∧ last = none := by
        simpa [lineTexts, hnil] using htexts
      obtain ⟨rfl, rfl⟩ := hlines
      exact ⟨[], some ⟨[c], by simpa using hbreak⟩, rfl, rfl⟩
  | case5 c cs _ hbreak line others hcons ih =>
      obtain ⟨lines, last, rfl, htexts⟩ := ih
      rw [hcons] at htexts
      have hunbroken (first : Line) : ∀ x ∈ c :: first.text, isLineBreak x = false := by
        simpa using ⟨by simpa using hbreak, first.unbroken⟩
      cases lines with
      | nil =>
          cases last with
          | none => contradiction
          | some first =>
              obtain ⟨rfl, rfl⟩ := List.cons.inj htexts
              exact ⟨[], some ⟨c :: first.text, hunbroken first⟩, rfl, rfl⟩
      | cons first lines =>
          obtain ⟨rfl, rfl⟩ := List.cons.inj htexts
          exact ⟨(⟨c :: first.1.text, hunbroken first.1⟩, first.2) :: lines, last, rfl, rfl⟩

end Text

namespace Scan

/-! ## Scanning the lines -/

/-- An empty piece changes nothing. -/
theorem cons_nil (scan : Scan) : cons [] scan = scan := by
  have hnone : Diagnostic.ofLine? [] = none := by
    decide
  unfold cons
  rw [hnone]
  rfl

/-- Whichever endings the lines of a text have, its pieces give what the lines give. -/
theorem ofPieces_joined (lines : List (Text.Line × Text.LineEnd)) (last : Option Text.Line) :
    ofPieces (Text.pieces (Text.joined lines last)) = ofPieces (Text.lineTexts lines last) := by
  induction lines with
  | nil =>
      cases last with
      | none =>
          show ofPieces (Text.pieces []) = empty
          rw [Text.pieces_nil]
          exact cons_nil empty
      | some line =>
          show ofPieces (Text.pieces line.text) = ofPieces [line.text]
          rw [Text.pieces_line]
  | cons first lines ih =>
      obtain ⟨line, ending⟩ := first
      show ofPieces (Text.pieces (line.text ++ (ending.text ++ Text.joined lines last))) =
        cons line.text (ofPieces (Text.lineTexts lines last))
      rw [← ih]
      rcases Text.pieces_line_append line ending (Text.joined lines last) with h | h
      · rw [h]
        rfl
      · rw [h]
        exact congrArg (cons line.text) (cons_nil _)

/-- A text is scanned as its lines are, whichever endings they have: the diagnostics are those of
the lines in order, and the number that is logged counts the lines that are neither blank nor a
diagnostic. A carriage return with a line feed may therefore be taken for one ending or for two. -/
theorem ofText_lineEndings :
    (∀ (lines : List (Text.Line × Text.LineEnd)) (last : Option Text.Line),
      let texts := Text.lineTexts lines last
      let found := texts.filterMap Diagnostic.ofLine?
      let skipped := texts.countP fun text =>
        (Diagnostic.ofLine? text).isNone && !Text.isBlankText text
      let scan := ofText (String.ofList (Text.joined lines last))
      scan.diagnostics = found ∧ scan.skipped = skipped ∧
        scan.events = found.map .parsed ++ [.scanned found.length skipped]) ∧
    ∀ text, ofText text = ofPieces (Text.splitLines text.toList) := by
  have hjoined (lines : List (Text.Line × Text.LineEnd)) (last : Option Text.Line) :
      ofText (String.ofList (Text.joined lines last)) = ofPieces (Text.lineTexts lines last) := by
    unfold ofText
    rw [String.toList_ofList, ofPieces_joined]
  constructor
  · intro lines last texts found skipped scan
    have hfound : scan.diagnostics = found := by
      show (ofText _).diagnostics = _
      rw [hjoined, diagnostics_ofPieces]
    have hskipped : scan.skipped = skipped := by
      show (ofText _).skipped = _
      rw [hjoined, skipped_ofPieces]
    refine ⟨hfound, hskipped, ?_⟩
    unfold events
    rw [hfound, hskipped]
  · intro text
    obtain ⟨lines, last, htext, htexts⟩ := Text.exists_joined text.toList
    rw [← htexts, ← hjoined, htext, String.ofList_toList]

end Scan

end LintSarif
