import LintSarif.Text.LineBreak

/-!
# Line endings

Another way to take a text apart at its line breaks. A carriage return with a line feed directly
behind it is one ending here, not two, and a text that ends with an ending has no empty line behind
it. `splitLines` cuts a text in this way; `joined` puts lines and endings together.
-/

namespace LintSarif.Text

/-- A stretch of text without a line break. -/
structure Line where
  text : List Char
  unbroken : ∀ c ∈ text, isLineBreak c = false

/-- What may end a line. -/
inductive LineEnd where
  | single (c : Char) (isBreak : isLineBreak c = true)
  /-- A carriage return and a line feed. -/
  | returnFeed

/-- `e.text` are the characters of the ending `e`. -/
def LineEnd.text : LineEnd → List Char
  | .single c _ => [c]
  | .returnFeed => ['\r', '\n']

/-- `joined lines last` is the text of `lines`, each with its ending, and of the line `last` without
one, if any. -/
def joined (lines : List (Line × LineEnd)) (last : Option Line) : List Char :=
  lines.foldr (fun (line, ending) rest => line.text ++ (ending.text ++ rest))
    (last.elim [] Line.text)

/-- `lineTexts lines last` are the texts of `lines` and of `last`, without the endings. -/
def lineTexts (lines : List (Line × LineEnd)) (last : Option Line) : List (List Char) :=
  lines.map (fun (line, _) => line.text) ++ (last.map Line.text).toList

/-- `splitLines cs` are the lines of `cs`, none of them empty for want of characters behind the last
ending. -/
def splitLines : List Char → List (List Char)
  | [] => []
  | '\r' :: '\n' :: cs => [] :: splitLines cs
  | c :: cs =>
    if isLineBreak c then [] :: splitLines cs
    else
      match splitLines cs with
      | [] => [[c]]
      | line :: lines => (c :: line) :: lines

example :
    splitLines "a\r\nb\r\r\n\n\u2028c\x1c".toList =
      ["a".toList, "b".toList, [], [], [], "c".toList] := by
  cbv

end LintSarif.Text
