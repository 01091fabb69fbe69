import LintSarif.Diagnostic.Grammar
import LintSarif.Diagnostic.Reader
import Mathlib.Data.List.DropRight

/-!
# Reading a diagnostic line in a single scan

Another way to read a line, which never takes a choice back. The file ends where the first header
of the line starts; if what follows that header is no message with a rule, no other header is tried.
The rule is found from the end of the line: its closing bracket ends the line, apart from blanks,
and its opening bracket is the first one behind the closing bracket before that.

`Diagnostic.singleScan?` is the scan. What the first header of a line is does not depend on any
reader: `HeaderForm.StartsAt` and `HeaderForm.IsFirst` say it by the grammar.
-/

namespace LintSarif

namespace HeaderForm

/-- `StartsAt cs p` holds when a header starts at the index `p` of `cs`. -/
def StartsAt (cs : List Char) (p : Nat) : Prop :=
  ∃ h : HeaderForm, h.Valid ∧ h.text <+: cs.drop p

/-- `h.IsFirst cs file rest` holds when no header of `cs` starts before `h`, which stands between
`file` and `rest`. -/
structure IsFirst (h : HeaderForm) (cs file rest : List Char) : Prop where
  valid : h.Valid
  split : cs = file ++ (h.text ++ rest)
  /-- All blanks behind the severity belong to the header. -/
  rest_start : rest.dropWhile Text.isBlank = rest
  least : ∀ p < file.length, ¬ StartsAt cs p

end HeaderForm

namespace LineParts

/-- `firstHeader? cs` is the first header of `cs`, with the file in front of it and the text behind
it. -/
def firstHeader? : List Char → Option (List Char × Header × List Char)
  | [] => none
  | c :: cs =>
    match header? (c :: cs) with
    | some (header, rest) => some ([], header, rest)
    | none => (firstHeader? cs).map fun (file, found) => (c :: file, found)

/-- `lastGroup? cs` is the message and the rule of a line whose header has been taken off. The
message is what stands in front of the opening bracket of the rule, blanks at its end included. The
rule is not empty. -/
def lastGroup? (cs : List Char) : Option (List Char × List Char) :=
  let line := Text.trimEnd cs
  if line.getLast? = some ']' then
    let closed := line.dropLast.rdropWhile (· != ']')
    let stretch := line.dropLast.rtakeWhile (· != ']')
    match stretch.dropWhile (· != '[') with
    | '[' :: c :: rule => some (closed ++ stretch.takeWhile (· != '['), c :: rule)
    | _ => none
  else none

end LineParts

namespace Diagnostic

/-- `ofSplit? file header rest` is the diagnostic of a line that is cut around its first header. -/
def ofSplit? (file : List Char) (header : LineParts.Header) (rest : List Char) :
    Option Diagnostic := do
  let (message, rule) ← LineParts.lastGroup? rest
  if header.line ≤ maxPosition ∧ header.column ≤ maxPosition then
    some {
      file := String.ofList file
      line := header.line - 1
      column := header.column - 1
      severity := header.severity
      message := String.ofList (Text.trimEnd message)
      rule := String.ofList rule }
  else none

/-- `singleScan? cs` is the diagnostic that a single scan of the line `cs` finds. -/
def singleScan? (cs : List Char) : Option Diagnostic := do
  let (file, header, rest) ← LineParts.firstHeader? cs
  ofSplit? file header rest

end Diagnostic

end LintSarif
