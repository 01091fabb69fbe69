/-!
# Blank characters

A character is blank when it has the Unicode property `White_Space`. There are 25 of them; the
information separators U+001C to U+001F, the zero-width space U+200B and the byte-order mark
U+FEFF are not among them.
-/

namespace LintSarif.Text

/-- The ranges of the Unicode property `White_Space`, each with its first and last character. -/
def blankRanges : List (Char × Char) :=
  [('\t', '\r'), (' ', ' '), ('\u0085', '\u0085'), ('\u00a0', '\u00a0'), ('\u1680', '\u1680'),
   ('\u2000', '\u200a'), ('\u2028', '\u2029'), ('\u202f', '\u202f'), ('\u205f', '\u205f'),
   ('\u3000', '\u3000')]

/-- `isBlank c` holds when `c` lies in one of the `blankRanges`. -/
def isBlank (c : Char) : Bool :=
  blankRanges.any fun range => range.1 ≤ c && c ≤ range.2

/-- `isBlankText cs` holds when `cs` has no character but blanks, so also of the empty text. -/
def isBlankText (cs : List Char) : Bool :=
  cs.all isBlank

/-- `trimEnd cs` is `cs` without the blanks at its end. -/
def trimEnd (cs : List Char) : List Char :=
  (cs.reverse.dropWhile isBlank).reverse

/-- Twenty-five characters are blank. -/
example : (blankRanges.map fun range => range.2.toNat - range.1.toNat + 1).sum = 25 := by decide

example : ['\x1c', '\x1f', '\u200b', '\ufeff', '[', ']', ':'].any isBlank = false := by decide

end LintSarif.Text
