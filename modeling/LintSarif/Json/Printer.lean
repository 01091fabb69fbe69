import LintSarif.Json.Basic
import LintSarif.Json.Quoted
import LintSarif.Text.Numeral

/-!
# Printing JSON

A value is laid out over several lines. Each item of an array and each member of an object has a
line of its own, two blanks further in than the brackets around it, and a member's name and value
are separated by a colon and a blank. An empty array or object is a pair of brackets. There is no
line break at the end.
-/

namespace LintSarif.Json

/-- `newline depth` starts a line at the given depth of nesting. -/
def newline (depth : Nat) : List Char :=
  '\n' :: List.replicate (2 * depth) ' '

mutual
/-- `write depth v` is the text of `v` inside `depth` brackets. -/
def write (depth : Nat) : Json → List Char
  | .str text => quoted text.toList
  | .int value => Text.Numeral.ofInt value
  | .arr [] => ['[', ']']
  | .arr (item :: items) =>
    '[' :: newline (depth + 1) ++ write (depth + 1) item ++ writeItems (depth + 1) items ++
      newline depth ++ [']']
  | .obj [] => ['{', '}']
  | .obj ((name, value) :: members) =>
    '{' :: newline (depth + 1) ++ quoted name.toList ++ [':', ' '] ++ write (depth + 1) value ++
      writeMembers (depth + 1) members ++ newline depth ++ ['}']

/-- `writeItems depth items` is the text of the items of an array after its first. -/
def writeItems (depth : Nat) : List Json → List Char
  | [] => []
  | item :: items => ',' :: newline depth ++ write depth item ++ writeItems depth items

/-- `writeMembers depth members` is the text of the members of an object after its first. -/
def writeMembers (depth : Nat) : List (String × Json) → List Char
  | [] => []
  | (name, value) :: members =>
    ',' :: newline depth ++ quoted name.toList ++ [':', ' '] ++ write depth value ++
      writeMembers depth members
end

/-- `print v` is the text of the value `v`. -/
def print (v : Json) : String :=
  String.ofList (write 0 v)

example :
    print (.obj [("a", .arr [.int 1, .int (-2)]), ("b", .arr [])]) =
      "\x7b\n  \"a\": [\n    1,\n    -2\n  ],\n  \"b\": []\n\x7d" := by
  cbv

end LintSarif.Json
