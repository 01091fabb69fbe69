import LintSarif.Text.Token

/-!
# Severities

A diagnostic is a warning, an error or a note. `ofToken?_eq_some_iff` says that a severity is
read from exactly the word it is written as.
-/

namespace LintSarif

/-- How serious a diagnostic is. -/
inductive Severity where
  | warning
  | error
  | note
  deriving DecidableEq, Repr

namespace Severity

/-- Every severity. -/
def all : List Severity := [.warning, .error, .note]

/-- `token s` is the word for `s` in a diagnostic line, in lower case. -/
def token : Severity → String
  | .warning => "warning"
  | .error => "error"
  | .note => "note"

/-- `ofToken? word` is the severity written as `word`; upper case is not accepted. -/
def ofToken? (word : String) : Option Severity :=
  all.find? fun s => s.token == word

/-- `word? cs` is the word of a severity that stands at the head of `cs`, and what follows it. -/
def word? (cs : List Char) : Option (String × List Char) :=
  all.findSome? fun s => (Text.literal? s.token.toList cs).map fun rest => (s.token, rest)

/-- `read? cs` is the severity whose word stands at the head of `cs`, and what follows the word. -/
def read? (cs : List Char) : Option (Severity × List Char) := do
  let (word, rest) ← word? cs
  let s ← ofToken? word
  return (s, rest)

/-- A severity is read from its own word and from no other. -/
theorem ofToken?_eq_some_iff {word : String} {s : Severity} :
    ofToken? word = some s ↔ s.token = word := by
  constructor
  · intro h
    simpa using List.find?_some h
  · rintro rfl
    cases s <;> decide

end Severity

end LintSarif
