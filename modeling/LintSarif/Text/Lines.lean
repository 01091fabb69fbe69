/-!
# Lines of a text

The lines of a text that is shown line by line. A line ends with a line feed, and a carriage return
directly in front of the line feed belongs to the end of the line. `lines_append` says that the
lines of a text that ends with a line feed stand before those of whatever follows it.
-/

namespace LintSarif.Text

/-- `dropReturn cs` is `cs` without a carriage return at its end. -/
def dropReturn (cs : List Char) : List Char :=
  if cs.getLast? = some '\r' then cs.dropLast else cs

/-- `lines cs` are the lines of `cs`. What follows the last line feed is a line too unless it is
empty. -/
def lines (cs : List Char) : List (List Char) :=
  let pieces := cs.splitOn '\n'
  pieces.dropLast.map dropReturn ++ (pieces.getLast?.filter fun piece => !piece.isEmpty).toList

@[simp]
theorem lines_nil : lines [] = [] := by
  simp [lines, List.splitOn]

/-- A text that ends with a line feed and the text after it have their lines one after the other. -/
theorem lines_append (before after : List Char) :
    lines (before ++ '\n' :: after) = lines (before ++ ['\n']) ++ lines after := by
  have hne : ∀ cs : List Char, cs.splitOn '\n' ≠ [] := fun cs => List.splitOnP_ne_nil _ cs
  have hsplit : ∀ cs : List Char,
      (before ++ '\n' :: cs).splitOn '\n' = before.splitOn '\n' ++ cs.splitOn '\n' :=
    fun cs => List.splitOnP_append_cons before cs (by simp)
  have hempty : ([] : List Char).splitOn '\n' = [[]] := by simp [List.splitOn]
  have hlast := List.getLast?_eq_some_getLast (hne after)
  simp [lines, hsplit, hempty, List.dropLast_append_of_ne_nil, List.getLast?_append, hne, hlast]

example : lines "a\r\nb\rc\n\nd".toList = ["a".toList, "b\rc".toList, [], "d".toList] := by cbv

end LintSarif.Text
