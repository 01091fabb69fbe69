import LintSarif.Diagnostic.Reader
import LintSarif.Text.LineBreak

/-!
# Scanning a text for diagnostics

A text is cut at every line break and each piece is read as a diagnostic line. Pieces that are no
diagnostic are passed over; those of them that are not blank are counted as skipped.
-/

namespace LintSarif

/-- What a scan found. -/
structure Scan where
  /-- The diagnostics in the order of their lines. -/
  diagnostics : List Diagnostic
  /-- How many pieces were neither blank nor a diagnostic. -/
  skipped : Nat
  deriving DecidableEq, Repr

namespace Scan

/-- The scan of no pieces. -/
def empty : Scan := ⟨[], 0⟩

/-- `cons piece scan` is `scan` with `piece` in front of what was scanned. -/
def cons (piece : List Char) (scan : Scan) : Scan :=
  match Diagnostic.ofLine? piece with
  | some diagnostic => { scan with diagnostics := diagnostic :: scan.diagnostics }
  | none =>
    if Text.isBlankText piece then scan else { scan with skipped := scan.skipped + 1 }

/-- `ofPieces pieces` scans the given pieces. -/
def ofPieces (pieces : List (List Char)) : Scan :=
  pieces.foldr cons empty

/-- `ofText text` scans the pieces of `text` between line breaks. -/
def ofText (text : String) : Scan :=
  ofPieces (Text.pieces text.toList)

/-- The first piece is scanned in front of the others. -/
theorem ofPieces_cons (piece : List Char) (pieces : List (List Char)) :
    ofPieces (piece :: pieces) = cons piece (ofPieces pieces) := rfl

/-- The diagnostics of a scan are those of its pieces. -/
@[simp]
theorem diagnostics_ofPieces (pieces : List (List Char)) :
    (ofPieces pieces).diagnostics = pieces.filterMap Diagnostic.ofLine? := by
  induction pieces with
  | nil => rfl
  | cons piece pieces ih =>
    rw [ofPieces_cons, List.filterMap_cons, ← ih, cons]
    cases Diagnostic.ofLine? piece with
    | some diagnostic => rfl
    | none => cases h : Text.isBlankText piece <;> simp

/-- The pieces skipped are those that are neither blank nor a diagnostic. -/
@[simp]
theorem skipped_ofPieces (pieces : List (List Char)) :
    (ofPieces pieces).skipped =
      pieces.countP fun piece =>
        (Diagnostic.ofLine? piece).isNone && !Text.isBlankText piece := by
  induction pieces with
  | nil => rfl
  | cons piece pieces ih =>
    rw [ofPieces_cons, List.countP_cons, ← ih, cons]
    cases h : Diagnostic.ofLine? piece with
    | some diagnostic => simp
    | none => cases hb : Text.isBlankText piece <;> simp

end Scan

end LintSarif
