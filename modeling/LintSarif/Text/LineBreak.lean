/-!
# Line breaks

Ten characters end a line. Every one of them ends a line on its own, so that a carriage return
followed by a line feed leaves an empty piece between the two. `pieces_append_cons` says that a
text falls apart at each break, whatever stands on the two sides of it.
-/

namespace LintSarif.Text

/-- The line breaks: line feed, carriage return, vertical tab, form feed, the file, group and
record separators, next line, line separator and paragraph separator. -/
def lineBreaks : List Char :=
  ['\n', '\r', '\x0b', '\x0c', '\x1c', '\x1d', '\x1e', '\u0085', '\u2028', '\u2029']

/-- `isLineBreak c` holds when `c` is one of the `lineBreaks`. -/
def isLineBreak (c : Char) : Bool :=
  lineBreaks.contains c

/-- `pieces cs` are the stretches of `cs` between line breaks, the empty ones included, so there
is one piece more than there are breaks. -/
def pieces (cs : List Char) : List (List Char) :=
  cs.splitOnP isLineBreak

@[simp]
theorem pieces_nil : pieces [] = [[]] := by
  simp [pieces]

/-- A break separates the pieces before it from those after it. -/
theorem pieces_append_cons (before after : List Char) {c : Char} (h : isLineBreak c = true) :
    pieces (before ++ c :: after) = pieces before ++ pieces after :=
  List.splitOnP_append_cons before after h

example : pieces "a\r\nb\n".toList = ["a".toList, [], "b".toList, []] := by cbv

end LintSarif.Text
