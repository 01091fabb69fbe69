import LintSarif.Diagnostic.Basic
import LintSarif.Text.Numeral

/-!
# Writing a diagnostic line

The canonical line of a diagnostic has single blanks and no leading zeros.
-/

namespace LintSarif.Diagnostic

/-- `d.toLine` is the line `file:line:column: severity: message [rule]` of `d`, with the position
counted from one. -/
def toLine (d : Diagnostic) : List Char :=
  d.file.toList ++ ':' :: Text.Numeral.ofInt (d.line + 1) ++
    ':' :: Text.Numeral.ofInt (d.column + 1) ++ [':', ' '] ++ d.severity.token.toList ++
    [':', ' '] ++ d.message.toList ++ [' ', '['] ++ d.rule.toList ++ [']']

/-- `canonicalText ds` has the lines of the diagnostics `ds`, with a line feed between two. -/
def canonicalText (ds : List Diagnostic) : String :=
  String.ofList (['\n'].intercalate (ds.map toLine))

example :
    toLine ⟨"a.c", 2, -1, .note, "see here", "misc"⟩ =
      "a.c:3:0: note: see here [misc]".toList := by
  decide +kernel

end LintSarif.Diagnostic
