import LintSarif.Diagnostic.Basic

/-!
# Reading a diagnostic line

A diagnostic line has the form

    file:line:column: severity: message [rule]

The file and the message hold no line feed; the rule holds no closing bracket but may hold line
feeds and opening brackets. A text can have several readings of this form. The one taken has the
shortest file, then the longest run of blanks in front of the message, then the shortest message.
After the file is chosen, the numbers and the severity are determined by the text, since no digit
is a colon and no severity starts with a blank.

`Diagnostic.ofLine?` is the reader. A number above `Diagnostic.maxPosition` in the reading taken
makes the line no diagnostic; no other reading is tried for it.
-/

namespace LintSarif

/-- The parts of a diagnostic line, with the numbers as they stand in the line. -/
structure LineParts where
  file : List Char
  line : Nat
  column : Nat
  severity : Severity
  message : List Char
  rule : List Char
  deriving DecidableEq, Repr

namespace LineParts

/-- The position and the severity that stand between the file and the message. -/
structure Header where
  line : Nat
  column : Nat
  severity : Severity
  deriving DecidableEq, Repr

/-- `header? cs` reads `:line:column: severity:` at the head of `cs`, up to the last of the blanks
after it. -/
def header? (cs : List Char) : Option (Header × List Char) := do
  let cs ← Text.literal? [':'] cs
  let (line, cs) ← Text.number? cs
  let cs ← Text.literal? [':'] cs
  let (column, cs) ← Text.number? cs
  let cs ← Text.literal? [':'] cs
  let cs ← Text.blanks? cs
  let (severity, cs) ← Severity.read? cs
  let cs ← Text.literal? [':'] cs
  let cs ← Text.blanks? cs
  return (⟨line, column, severity⟩, cs)

/-- `openRule? cs` is the rule when `cs` is nothing but blanks, an opening bracket and a rule. -/
def openRule? (cs : List Char) : Option (List Char) :=
  match cs.dropWhile Text.isBlank with
  | '[' :: c :: rule => some (c :: rule)
  | _ => none

/-- `messageAndRule? stretches` reads the message and the rule of a line from its stretches between
closing brackets. The rule holds no closing bracket and only blanks follow the one after it, so the
rule ends the last stretch but one, and all stretches before that belong to the message. -/
def messageAndRule? : List (List Char) → Option (List Char × List Char)
  | [] => none
  | [_] => none
  | [stretch, ending] =>
    if Text.isBlankText ending then Text.shortestRun? openRule? stretch else none
  | stretch :: stretches =>
    if stretch.contains '\n' then none
    else
      (messageAndRule? stretches).map fun (message, rule) => (stretch ++ ']' :: message, rule)

/-- `body? cs` reads the message and the rule of a line whose header has been taken off. -/
def body? (cs : List Char) : Option (List Char × List Char) :=
  messageAndRule? (cs.splitOn ']')

/-- `afterFile? cs` reads a line whose file name has been taken off. -/
def afterFile? (cs : List Char) : Option LineParts := do
  let (header, cs) ← header? cs
  let (message, rule) ← body? cs
  return ⟨[], header.line, header.column, header.severity, message, rule⟩

/-- `ofLine? cs` is the reading of `cs` with the shortest file. -/
def ofLine? (cs : List Char) : Option LineParts :=
  (Text.shortestRun? afterFile? cs).map fun (file, parts) => { parts with file := file }

/-- `diagnostic? parts` is the diagnostic with these parts, unless a number is too great. Blanks at
the end of the message are dropped. -/
def diagnostic? (parts : LineParts) : Option Diagnostic :=
  if parts.line ≤ Diagnostic.maxPosition ∧ parts.column ≤ Diagnostic.maxPosition then
    some {
      file := String.ofList parts.file
      line := parts.line - 1
      column := parts.column - 1
      severity := parts.severity
      message := String.ofList (Text.trimEnd parts.message)
      rule := String.ofList parts.rule }
  else none

end LineParts

/-- `Diagnostic.ofLine? cs` is the diagnostic that the line `cs` states. -/
def Diagnostic.ofLine? (cs : List Char) : Option Diagnostic :=
  (LineParts.ofLine? cs).bind LineParts.diagnostic?

example :
    Diagnostic.ofLine? "a.c:3:4: error: index [0] out of range [bounds]".toList =
      some ⟨"a.c", 2, 3, .error, "index [0] out of range", "bounds"⟩ := by
  decide +kernel

end LintSarif
