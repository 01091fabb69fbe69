import LintSarif.Text.Blank
import LintSarif.Text.Numeral

/-!
# Tokens at the head of a text

Each reader here takes one token off the head of a text and answers what is left, or `none` when
the text does not start with that token. The readers of runs take the whole run, except for
`shortestRun?`, which stops as soon as the rest of the text can be read.
-/

namespace LintSarif.Text

/-- `literal? token cs` is what follows `token` in `cs`. -/
def literal? : List Char → List Char → Option (List Char)
  | [], cs => some cs
  | _ :: _, [] => none
  | t :: token, c :: cs => if t = c then literal? token cs else none

/-- `blanks? cs` is what follows the run of blanks at the head of `cs`; one blank at least is
required. -/
def blanks? : List Char → Option (List Char)
  | [] => none
  | c :: cs => if isBlank c then some (cs.dropWhile isBlank) else none

/-- `number? cs` is the value of the run of decimal digits at the head of `cs`, of any length but
not empty, and what follows it. -/
def number? (cs : List Char) : Option (Nat × List Char) :=
  match cs.takeWhile Char.isDigit with
  | [] => none
  | digits => some (Numeral.value digits, cs.dropWhile Char.isDigit)

/-- `shortestRun? read cs` is the shortest run without line feeds at the head of `cs` after which
`read` accepts the rest of `cs`, and what `read` answers there. -/
def shortestRun? {α : Type} (read : List Char → Option α) :
    List Char → Option (List Char × α)
  | [] => (read []).map fun a => ([], a)
  | c :: cs =>
    match read (c :: cs) with
    | some a => some ([], a)
    | none =>
      if c = '\n' then none else (shortestRun? read cs).map fun (run, a) => (c :: run, a)

/-- A literal is found exactly at the head of a text. -/
theorem literal?_eq_some_iff {token cs rest : List Char} :
    literal? token cs = some rest ↔ cs = token ++ rest := by
  induction token generalizing cs with
  | nil => simp [literal?]
  | cons t token ih =>
    cases cs with
    | nil => simp [literal?]
    | cons c cs =>
      by_cases h : t = c
      · simp [literal?, h, ih]
      · simp [literal?, h, Ne.symm h]

end LintSarif.Text
