import LintSarif.Severity

/-!
# Diagnostics

A diagnostic is what a linter says about one place of one file. Positions are counted from zero
here and from one in the text of a diagnostic line, so a line number 0 in the text is the
position -1.
-/

namespace LintSarif

/-- One finding of a linter. -/
structure Diagnostic where
  /-- The file as the linter names it, absolute or relative. -/
  file : String
  /-- The line, counted from zero. -/
  line : Int
  /-- The column, counted from zero. -/
  column : Int
  severity : Severity
  message : String
  /-- The name of the check that was violated. -/
  rule : String
  deriving DecidableEq, Repr

/-- The greatest line or column number that a diagnostic line may hold, 2^63 - 1. -/
def Diagnostic.maxPosition : Nat := 9223372036854775807

end LintSarif
