import LintSarif.Proofs.Diagnostic.Reading

/-!
# Reading back a written diagnostic

A diagnostic can be written as a line in many ways: with leading zeros in its numbers and with
longer gaps between its parts. `Diagnostic.ofLine?_form_eq_some_iff` says for every such line that
it is read back as the diagnostic exactly when the diagnostic is `Unambiguous`, a condition on its
file, its message and its rule alone.
-/

namespace LintSarif

/-- `HeaderForm.OccursIn cs` holds when a header stands somewhere in `cs`, cut behind the first of
the blanks after its severity. -/
def HeaderForm.OccursIn (cs : List Char) : Prop :=
  ∃ h : HeaderForm, h.Valid ∧ h.messageGap.length = 1 ∧ h.text <:+: cs

/-- A header holds colons. -/
theorem HeaderForm.not_occursIn {cs : List Char} (h : ':' ∉ cs) : ¬ HeaderForm.OccursIn cs := by
  rintro ⟨header, -, -, hpart⟩
  exact h (hpart.subset (by simp [HeaderForm.text]))

/-- Nothing in the fields of `d` can be taken for another part of a diagnostic line. -/
structure Diagnostic.Unambiguous (d : Diagnostic) : Prop where
  file : '\n' ∉ d.file.toList
  /-- No header starts inside the file. -/
  file_header : ¬ HeaderForm.OccursIn d.file.toList
  message : '\n' ∉ d.message.toList
  message_start : ∀ c ∈ d.message.toList.head?, Text.isBlank c = false
  message_end : ∀ c ∈ d.message.toList.getLast?, Text.isBlank c = false
  /-- Every opening bracket of the message has a closing bracket behind it. -/
  message_brackets :
    ∀ before after, d.message.toList = before ++ '[' :: after → ']' ∈ after
  rule : d.rule ≠ "" ∧ ']' ∉ d.rule.toList

/-- The numbers and the gaps of a diagnostic line as they are written. -/
structure Spelling where
  lineDigits : List Char
  columnDigits : List Char
  severityGap : List Char
  messageGap : List Char
  ruleGap : List Char
  ending : List Char
  deriving DecidableEq, Repr

/-- `Diagnostic.form d s` is the form of a line with the fields of `d` in the spelling `s`. -/
def Diagnostic.form (d : Diagnostic) (s : Spelling) : LineForm where
  file := d.file.toList
  lineDigits := s.lineDigits
  columnDigits := s.columnDigits
  severityGap := s.severityGap
  severity := d.severity
  messageGap := s.messageGap
  message := d.message.toList
  ruleGap := s.ruleGap
  rule := d.rule.toList
  ending := s.ending

/-- `s.Spells d` holds when the digits of `s` stand for the position of `d`, counted from one, and
its gaps are blanks, none of them a line feed except in the ending. -/
structure Spelling.Spells (s : Spelling) (d : Diagnostic) : Prop where
  lineDigits : s.lineDigits ≠ [] ∧ ∀ c ∈ s.lineDigits, c.isDigit = true
  line : (Text.Numeral.value s.lineDigits : Int) = d.line + 1
  columnDigits : s.columnDigits ≠ [] ∧ ∀ c ∈ s.columnDigits, c.isDigit = true
  column : (Text.Numeral.value s.columnDigits : Int) = d.column + 1
  severityGap : s.severityGap ≠ [] ∧ ∀ c ∈ s.severityGap, Text.isBlank c = true ∧ c ≠ '\n'
  messageGap : s.messageGap ≠ [] ∧ ∀ c ∈ s.messageGap, Text.isBlank c = true ∧ c ≠ '\n'
  ruleGap : ∀ c ∈ s.ruleGap, Text.isBlank c = true ∧ c ≠ '\n'
  ending : ∀ c ∈ s.ending, Text.isBlank c = true

/-- `d.InRange` holds when both numbers of `d` can be read from a line. -/
def Diagnostic.InRange (d : Diagnostic) : Prop :=
  (-1 ≤ d.line ∧ d.line < Diagnostic.maxPosition) ∧
    (-1 ≤ d.column ∧ d.column < Diagnostic.maxPosition)

namespace BodyForm

variable {b b' : BodyForm}

/-- A message that ends with no blank and closes its brackets is the shortest one of its text. -/
theorem length_message_le (hvalid' : b'.Valid) (htext : b'.text = b.text)
    (hend : ∀ c ∈ b.message.getLast?, Text.isBlank c = false)
    (hclosed : ∀ before after, b.message = before ++ '[' :: after → ']' ∈ after) :
    b.message.length ≤ b'.message.length := by
  simp only [text, List.append_assoc, List.cons_append] at htext
  rcases List.append_eq_append_iff.1 htext with ⟨tail, hmessage, hrest⟩ | ⟨more, hmessage, -⟩
  swap
  · simp [hmessage]
  by_cases htail : ∀ c ∈ tail, Text.isBlank c = true
  · cases tail using List.reverseRecOn with
    | nil => simp [hmessage]
    | append_singleton tail c =>
        have hc := hend c (by simp [hmessage])
        rw [htail c (by simp)] at hc
        contradiction
  -- The bracket in front of the rule of `b'` stands in the message of `b`, and so does the one that
  -- closes it. But only blanks may follow that one.
  · exfalso
    have hbracket : Text.isBlank '[' = false := by decide
    have hne : tail.dropWhile Text.isBlank ≠ [] := mt List.dropWhile_eq_nil_iff.1 htail
    obtain ⟨c, inner, hinner⟩ := List.exists_cons_of_ne_nil hne
    have hdrop := congrArg (List.dropWhile Text.isBlank) hrest
    rw [List.dropWhile_append_of_pos hvalid'.ruleGap, List.dropWhile_append, hinner] at hdrop
    simp only [List.dropWhile_cons, hbracket, List.isEmpty_cons, Bool.false_eq_true, if_false,
      List.cons_append, List.cons.injEq] at hdrop
    obtain ⟨rfl, hdrop⟩ := hdrop
    have hmem : ']' ∈ inner := by
      refine hclosed (b'.message ++ tail.takeWhile Text.isBlank) inner ?_
      rw [hmessage, List.append_assoc, ← hinner, List.takeWhile_append_dropWhile]
    obtain ⟨rule, rest, rfl, hrule⟩ := List.eq_append_cons_of_mem hmem
    rw [List.append_assoc, List.cons_append] at hdrop
    obtain ⟨-, hending⟩ := Text.append_cons_inj_of_not_mem hvalid'.rule.2 hrule hdrop
    have hblank := hvalid'.ending '[' (by simp [hending])
    exact absurd hblank (by decide)

end BodyForm

namespace LineForm

variable {f : LineForm} {cs : List Char}

/-- A form without a header in its file, without a blank at the head of its body and with the
shortest message of its body is preferred. -/
theorem reads_text (hvalid : f.Valid) (hheader : ¬ HeaderForm.OccursIn f.file)
    (hstart : f.toBodyForm.text.dropWhile Text.isBlank = f.toBodyForm.text)
    (hshortest : ∀ b : BodyForm, b.Valid → b.text = f.toBodyForm.text →
      f.message.length ≤ b.message.length) : f.Reads f.text := by
  refine ⟨hvalid, rfl, fun g hg htext => ?_⟩
  simp only [text, List.append_assoc] at htext
  rcases Nat.lt_trichotomy f.file.length g.file.length with hlt | heq | hlt
  · exact .inl hlt
  · obtain ⟨-, hrest⟩ := List.append_inj htext heq.symm
    obtain ⟨-, -, -, -, hgap⟩ := HeaderForm.text_append_inj hvalid.header hg.header hrest.symm
    have hle := Text.run_length_le hvalid.header.messageGap.2 hstart hg.header.messageGap.2 hgap
    refine .inr ⟨heq, ?_⟩
    rcases Nat.lt_or_eq_of_le hle with hlt | heq
    · exact .inl hlt
    · obtain ⟨-, hbody⟩ := List.append_inj hgap heq.symm
      exact .inr ⟨heq.symm, hshortest _ hg.body hbody.symm⟩
  · rcases List.append_eq_append_iff.1 htext with ⟨ahead, hfile, hrest⟩ | ⟨more, hfile, -⟩
    · have hne : ahead ≠ [] := by
        rintro rfl
        rw [hfile, List.append_nil] at hlt
        exact absurd hlt (Nat.lt_irrefl _)
      obtain ⟨first, hfirst, hsingle, hprefix⟩ :=
        HeaderForm.exists_prefix_of_append hvalid.header hg.header hne hrest.symm
      have hinfix := hprefix.isInfix.trans (List.suffix_append g.file ahead).isInfix
      rw [← hfile] at hinfix
      exact absurd ⟨first, hfirst, hsingle, hinfix⟩ hheader
    · rw [hfile, List.length_append] at hlt
      omega

/-- No header starts inside the file of a preferred form that has no line feed in its own header: it
would give a form with a shorter file. -/
theorem Reads.not_occursIn_file {g : LineForm} (h : g.Reads f.text) (hvalid : f.Valid)
    (hfile : g.file = f.file) (hfeed : '\n' ∉ f.toHeaderForm.text) :
    ¬ HeaderForm.OccursIn f.file := by
  rintro ⟨first, hfirst, -, before, after, heq⟩
  let k : LineForm :=
    { f with
      toHeaderForm := first
      file := before
      message := after ++ f.toHeaderForm.text ++ f.message }
  have hk : k.Valid := by
    have hfileFeed := hvalid.file
    simp only [← heq, List.mem_append, not_or] at hfileFeed
    refine ⟨hfileFeed.1.1, hfirst, ?_, hvalid.body.ruleGap, hvalid.body.rule, hvalid.body.ending⟩
    simp [k, hfileFeed.2, hfeed, hvalid.body.message]
  have hktext : k.text = f.text := by
    simp [k, text, BodyForm.text, ← heq]
  have hshorter := h.2.2 k hk hktext
  have hlength : before.length < g.file.length := by
    simp only [hfile, ← heq, List.length_append, HeaderForm.text, List.length_cons]
    omega
  simp only [Before, k] at hshorter
  omega

end LineForm

namespace Diagnostic

variable {d : Diagnostic} {s : Spelling}

/-- A line whose fields hold what they may hold is a valid form. -/
theorem form_valid (hs : s.Spells d) (hfile : '\n' ∉ d.file.toList)
    (hmessage : '\n' ∉ d.message.toList) (hrule : d.rule.toList ≠ [] ∧ ']' ∉ d.rule.toList) :
    (d.form s).Valid where
  file := hfile
  header := {
    lineDigits := hs.lineDigits
    columnDigits := hs.columnDigits
    severityGap := ⟨hs.severityGap.1, fun c hc => (hs.severityGap.2 c hc).1⟩
    messageGap := ⟨hs.messageGap.1, fun c hc => (hs.messageGap.2 c hc).1⟩ }
  body := {
    message := hmessage
    ruleGap := fun c hc => (hs.ruleGap c hc).1
    rule := hrule
    ending := hs.ending }

/-- The form of a line with the fields of `d` states `d`. -/
theorem diagnostic_form (hs : s.Spells d) : (d.form s).diagnostic = d := by
  simp [form, LineForm.diagnostic, hs.line, hs.column]

/-- The numbers of a diagnostic that is in range fit. -/
theorem form_fits (hs : s.Spells d) (hrange : d.InRange) : (d.form s).Fits := by
  obtain ⟨⟨-, hline⟩, -, hcolumn⟩ := hrange
  have hl := hs.line
  have hc := hs.column
  simp only [LineForm.Fits, form]
  omega

/-- The header of a spelled line holds no line feed. -/
theorem form_header_noFeed (hs : s.Spells d) : '\n' ∉ (d.form s).toHeaderForm.text := by
  have hline : '\n' ∉ s.lineDigits := Text.not_mem_run hs.lineDigits.2 rfl
  have hcolumn : '\n' ∉ s.columnDigits := Text.not_mem_run hs.columnDigits.2 rfl
  have hsgap : '\n' ∉ s.severityGap := fun hmem => (hs.severityGap.2 _ hmem).2 rfl
  have hmgap : '\n' ∉ s.messageGap := fun hmem => (hs.messageGap.2 _ hmem).2 rfl
  have hword : '\n' ∉ d.severity.token.toList :=
    fun hmem => absurd (d.severity.token_chars _ hmem).2 (by decide)
  simp [HeaderForm.text, form, hline, hcolumn, hsgap, hmgap, hword]

/-- The line of an unambiguous diagnostic is in its preferred form, if there is a message or no gap
in front of the rule. -/
theorem Unambiguous.reads_form (h : d.Unambiguous) (hs : s.Spells d)
    (hgap : d.message.toList = [] → s.ruleGap = []) :
    (d.form s).Reads (d.form s).text := by
  have hvalid : (d.form s).Valid :=
    form_valid hs h.file h.message ⟨mt String.toList_eq_nil_iff.1 h.rule.1, h.rule.2⟩
  refine LineForm.reads_text hvalid h.file_header ?_ ?_
  · cases hmessage : d.message.toList with
    | nil =>
        have hopen : Text.isBlank '[' = false := by decide
        simp [form, BodyForm.text, hmessage, hgap hmessage, hopen]
    | cons c message =>
        have hc := h.message_start c (by simp [hmessage])
        simp [form, BodyForm.text, hmessage, hc]
  · exact fun b hb htext => BodyForm.length_message_le hb htext h.message_end h.message_brackets

/-- The line of an unambiguous diagnostic is read back as the diagnostic. -/
theorem Unambiguous.ofLine?_form (h : d.Unambiguous) (hs : s.Spells d) (hrange : d.InRange) :
    ofLine? (d.form s).text = some d := by
  by_cases hgap : d.message.toList = [] → s.ruleGap = []
  · exact ofLine?_eq_some_iff.2
      ⟨d.form s, h.reads_form hs hgap, form_fits hs hrange, diagnostic_form hs⟩
  -- Without a message the two gaps are one run of blanks, all of it in front of the message.
  · obtain ⟨hmessage, -⟩ := Classical.not_imp.1 hgap
    let merged : Spelling := { s with messageGap := s.messageGap ++ s.ruleGap, ruleGap := [] }
    have hmerged : merged.Spells d := by
      refine ⟨hs.lineDigits, hs.line, hs.columnDigits, hs.column, hs.severityGap, ⟨?_, ?_⟩, ?_,
        hs.ending⟩
      · simp [merged, hs.messageGap.1]
      · exact List.forall_mem_append.2 ⟨hs.messageGap.2, hs.ruleGap⟩
      · exact fun _ hmem => absurd hmem List.not_mem_nil
    have htext : (d.form s).text = (d.form merged).text := by
      simp [form, merged, LineForm.text, HeaderForm.text, BodyForm.text, hmessage]
    rw [htext]
    exact ofLine?_eq_some_iff.2
      ⟨d.form merged, h.reads_form hmerged fun _ => rfl, form_fits hmerged hrange,
        diagnostic_form hmerged⟩

/-- A diagnostic that is read back from its line is unambiguous. -/
theorem unambiguous_of_ofLine?_form (hs : s.Spells d)
    (h : ofLine? (d.form s).text = some d) : d.Unambiguous := by
  obtain ⟨g, hg, -, hd⟩ := ofLine?_eq_some_iff.1 h
  have hfile : g.file = d.file.toList := by simp [← hd, LineForm.diagnostic]
  have hmessage : g.message = d.message.toList := by simp [← hd, LineForm.diagnostic]
  have hrule : g.rule = d.rule.toList := by simp [← hd, LineForm.diagnostic]
  have hvalidRule : d.rule.toList ≠ [] ∧ ']' ∉ d.rule.toList := hrule ▸ hg.1.body.rule
  refine ⟨hfile ▸ hg.1.file, ?_, hmessage ▸ hg.1.body.message, hmessage ▸ hg.message_start,
    hmessage ▸ hg.message_end, ?_, mt String.toList_eq_nil_iff.2 hvalidRule.1, hvalidRule.2⟩
  · have hvalid : (d.form s).Valid :=
      form_valid hs (hfile ▸ hg.1.file) (hmessage ▸ hg.1.body.message) hvalidRule
    exact hg.not_occursIn_file hvalid hfile (form_header_noFeed hs)
  · exact fun _ _ heq => hg.message_brackets (hmessage.trans heq)

/-- A diagnostic is read back from the lines it is written as exactly when it is unambiguous. -/
theorem ofLine?_form_eq_some_iff (d : Diagnostic) (s : Spelling) (hs : s.Spells d)
    (hrange : d.InRange) : ofLine? (d.form s).text = some d ↔ d.Unambiguous :=
  ⟨unambiguous_of_ofLine?_form hs, fun h => h.ofLine?_form hs hrange⟩

/-- A file may hold a position, a message may hold brackets and a rule an opening one. -/
theorem ofLine?_form_position_in_file :
    let d : Diagnostic := ⟨"d:3:4: x.c", 6, -1, .note, "index [0] is out", "a[b"⟩
    let s : Spelling := ⟨['0', '0', '7'], ['0'], ['\t', ' '], [' '], [], ['\n']⟩
    s.Spells d ∧ d.InRange ∧ ofLine? (d.form s).text = some d ∧ d.Unambiguous := by
  intro d s
  have hs : s.Spells d := by
    constructor <;>
      simp [s, d, Text.isBlank, Text.blankRanges, Text.Numeral.value, Nat.ofDigitChars]
  have hrange : d.InRange := by
    unfold InRange
    decide
  have hread : ofLine? (d.form s).text = some d := by
    decide +kernel
  exact ⟨hs, hrange, hread, (ofLine?_form_eq_some_iff d s hs hrange).1 hread⟩

end Diagnostic

end LintSarif
