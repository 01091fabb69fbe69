import LintSarif.Diagnostic.Basic
import LintSarif.Text.Token

/-!
# The grammar of diagnostic lines

A `LineForm` is one way to fill in the form of a diagnostic line, with every run of blanks and of
digits as it is written: a file, a `HeaderForm` with the position and the severity, and a `BodyForm`
with the message and the rule. `LineForm.Valid` says what may stand in each part and `LineForm.text`
puts the parts together, so a text is a diagnostic line when it is the text of a valid form. A text
can have several valid forms, and `LineForm.Before` says which of two is preferred.
-/

namespace LintSarif

/-- What is written between the file and the message of a diagnostic line. -/
structure HeaderForm where
  lineDigits : List Char
  columnDigits : List Char
  /-- The blanks in front of the severity. -/
  severityGap : List Char
  severity : Severity
  /-- The blanks in front of the message. -/
  messageGap : List Char
  deriving DecidableEq, Repr

/-- What is written from the message on. -/
structure BodyForm where
  message : List Char
  /-- The blanks in front of the rule. -/
  ruleGap : List Char
  rule : List Char
  /-- The blanks at the end. -/
  ending : List Char
  deriving DecidableEq, Repr

/-- The parts of a diagnostic line as they are written. -/
structure LineForm extends HeaderForm, BodyForm where
  file : List Char
  deriving DecidableEq, Repr

/-- What holds for all characters of a text is decided on the text, whichever instances are
imported. -/
local instance instDecidableForallMem (p : Char → Prop) [DecidablePred p] (cs : List Char) :
    Decidable (∀ c ∈ cs, p c) :=
  List.decidableBAll p cs

namespace HeaderForm

/-- `h.text` is the text that the parts of `h` make up. -/
def text (h : HeaderForm) : List Char :=
  ':' :: h.lineDigits ++ ':' :: h.columnDigits ++ ':' :: h.severityGap ++
    h.severity.token.toList ++ ':' :: h.messageGap

/-- Each part of `h` holds what it may hold. -/
structure Valid (h : HeaderForm) : Prop where
  lineDigits : h.lineDigits ≠ [] ∧ ∀ c ∈ h.lineDigits, c.isDigit = true
  columnDigits : h.columnDigits ≠ [] ∧ ∀ c ∈ h.columnDigits, c.isDigit = true
  severityGap : h.severityGap ≠ [] ∧ ∀ c ∈ h.severityGap, Text.isBlank c = true
  messageGap : h.messageGap ≠ [] ∧ ∀ c ∈ h.messageGap, Text.isBlank c = true

instance (h : HeaderForm) : Decidable h.Valid :=
  decidable_of_iff (_ ∧ _ ∧ _ ∧ _)
    ⟨fun ⟨line, column, severity, message⟩ => ⟨line, column, severity, message⟩,
      fun ⟨line, column, severity, message⟩ => ⟨line, column, severity, message⟩⟩

end HeaderForm

namespace BodyForm

/-- `b.text` is the text that the parts of `b` make up. -/
def text (b : BodyForm) : List Char :=
  b.message ++ b.ruleGap ++ '[' :: b.rule ++ ']' :: b.ending

/-- Each part of `b` holds what it may hold. -/
structure Valid (b : BodyForm) : Prop where
  message : '\n' ∉ b.message
  ruleGap : ∀ c ∈ b.ruleGap, Text.isBlank c = true
  rule : b.rule ≠ [] ∧ ']' ∉ b.rule
  ending : ∀ c ∈ b.ending, Text.isBlank c = true

instance (b : BodyForm) : Decidable b.Valid :=
  decidable_of_iff (_ ∧ _ ∧ _ ∧ _)
    ⟨fun ⟨message, gap, rule, ending⟩ => ⟨message, gap, rule, ending⟩,
      fun ⟨message, gap, rule, ending⟩ => ⟨message, gap, rule, ending⟩⟩

end BodyForm

namespace LineForm

/-- `f.text` is the text that the parts of `f` make up. -/
def text (f : LineForm) : List Char :=
  f.file ++ f.toHeaderForm.text ++ f.toBodyForm.text

/-- Each part of `f` holds what it may hold. -/
structure Valid (f : LineForm) : Prop where
  file : '\n' ∉ f.file
  header : f.toHeaderForm.Valid
  body : f.toBodyForm.Valid

instance (f : LineForm) : Decidable f.Valid :=
  decidable_of_iff (_ ∧ _ ∧ _)
    ⟨fun ⟨file, header, body⟩ => ⟨file, header, body⟩,
      fun ⟨file, header, body⟩ => ⟨file, header, body⟩⟩

/-- `f.Before g` holds when `f` is at least as good a reading as `g`: its file is shorter, or its
file is the same and it has more blanks in front of the message, or these are the same too and its
message is no longer. -/
def Before (f g : LineForm) : Prop :=
  f.file.length < g.file.length ∨ f.file.length = g.file.length ∧
    (g.messageGap.length < f.messageGap.length ∨ f.messageGap.length = g.messageGap.length ∧
      f.message.length ≤ g.message.length)

instance (f g : LineForm) : Decidable (f.Before g) :=
  inferInstanceAs (Decidable (_ ∨ _ ∧ (_ ∨ _ ∧ _)))

/-- `f.Reads cs` holds when `f` is a valid form of the text `cs` and no other is preferred. -/
def Reads (f : LineForm) (cs : List Char) : Prop :=
  f.Valid ∧ f.text = cs ∧ ∀ g : LineForm, g.Valid → g.text = cs → f.Before g

/-- `f.Fits` holds when neither number of `f` is too great for a position. -/
def Fits (f : LineForm) : Prop :=
  Text.Numeral.value f.lineDigits ≤ Diagnostic.maxPosition ∧
    Text.Numeral.value f.columnDigits ≤ Diagnostic.maxPosition

instance (f : LineForm) : Decidable f.Fits :=
  inferInstanceAs (Decidable (_ ∧ _))

/-- `f.diagnostic` is what a line of the form `f` states. -/
def diagnostic (f : LineForm) : Diagnostic where
  file := String.ofList f.file
  line := Text.Numeral.value f.lineDigits - 1
  column := Text.Numeral.value f.columnDigits - 1
  severity := f.severity
  message := String.ofList f.message
  rule := String.ofList f.rule

end LineForm

end LintSarif
