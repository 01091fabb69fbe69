import LintSarif.Proofs.Diagnostic.Body
import LintSarif.Proofs.Diagnostic.Header

/-!
# The reading of a diagnostic line

A text that is a diagnostic line has exactly one preferred form (`LineForm.Reads.unique`), and the
reader finds it. Read `Diagnostic.ofLine?_eq_preferred_form` first: it says for every text what
`Diagnostic.ofLine?` answers. The message of the preferred form neither starts nor ends with a
blank, and it closes its brackets (`LineForm.Reads.message_start`, `message_end` and
`message_brackets`).
-/

namespace LintSarif

/-- `f.parts` are the parts that a reader of the form `f` answers. -/
def LineForm.parts (f : LineForm) : LineParts :=
  ⟨f.file, Text.Numeral.value f.lineDigits, Text.Numeral.value f.columnDigits, f.severity,
    f.message, f.rule⟩

namespace LineParts

variable {cs : List Char} {parts : LineParts}

/-- Behind the file of a diagnostic line the rest of it is read. -/
theorem exists_afterFile? {h : HeaderForm} {b : BodyForm} (hheader : h.Valid) (hbody : b.Valid) :
    ∃ parts, afterFile? (h.text ++ b.text) = some parts := by
  obtain ⟨b', hvalid, htext, -⟩ := BodyForm.exists_dropWhile hbody
  obtain ⟨message, rule, hread, -⟩ := BodyForm.exists_body? hvalid
  refine ⟨⟨[], h.header.line, h.header.column, h.header.severity, message, rule⟩, ?_⟩
  simp [afterFile?, HeaderForm.header?_text_append hheader, ← htext, hread]

/-- What is read behind a file is a form with no file, and of these it is the preferred one. -/
theorem afterFile?_sound (h : afterFile? cs = some parts) :
    ∃ f : LineForm, f.Valid ∧ f.file = [] ∧ f.text = cs ∧ f.parts = parts ∧
      ∀ g : LineForm, g.Valid → g.file = [] → g.text = cs → f.Before g := by
  simp only [afterFile?, bind, Option.bind_eq_some_iff] at h
  obtain ⟨⟨header, rest⟩, hheader, ⟨message, rule⟩, hbody, heq⟩ := h
  cases heq
  obtain ⟨hform, hvalid, rfl, rfl, hrest⟩ := header?_sound hheader
  obtain ⟨bform, hbvalid, rfl, rfl, rfl⟩ := body?_sound hbody
  refine ⟨⟨hform, bform, []⟩, ⟨List.not_mem_nil, hvalid, hbvalid⟩, rfl, rfl, rfl, ?_⟩
  intro g hg hfile htext
  simp only [LineForm.text, hfile, List.nil_append] at htext
  obtain ⟨-, -, -, -, hgap⟩ := HeaderForm.text_append_inj hvalid hg.header htext.symm
  have hle := Text.run_length_le hvalid.messageGap.2 hrest hg.header.messageGap.2 hgap
  refine .inr ⟨congrArg List.length hfile.symm, ?_⟩
  rcases Nat.lt_or_eq_of_le hle with hlt | heq
  · exact .inl hlt
  · obtain ⟨-, hbtext⟩ := List.append_inj hgap heq.symm
    obtain ⟨_, _, hread, hlength⟩ := BodyForm.exists_body? hg.body
    rw [← hbtext, hbody] at hread
    cases hread
    exact .inr ⟨heq.symm, hlength⟩

/-- What is read is the preferred form of the text. -/
theorem ofLine?_sound (h : ofLine? cs = some parts) :
    ∃ f : LineForm, f.Reads cs ∧ f.parts = parts := by
  obtain ⟨⟨file, parts'⟩, hrun, heq⟩ := Option.map_eq_some_iff.1 h
  cases heq
  obtain ⟨rest, rfl, hfeed, hread⟩ := Text.shortestRun?_sound hrun
  obtain ⟨f, hvalid, hfile, rfl, rfl, hbefore⟩ := afterFile?_sound hread
  refine ⟨{ f with file }, ⟨⟨hfeed, hvalid.header, hvalid.body⟩, ?_, ?_⟩, rfl⟩
  · simp [LineForm.text, hfile]
  · intro g hg htext
    have hgtext : g.text = g.file ++ (g.toHeaderForm.text ++ g.toBodyForm.text) :=
      List.append_assoc _ _ _
    obtain ⟨parts', hparts⟩ := exists_afterFile? hg.header hg.body
    obtain ⟨_, _, hrun', hle⟩ := Text.exists_shortestRun? hg.file hparts
    rw [← hgtext, htext, hrun] at hrun'
    cases hrun'
    rcases Nat.lt_or_eq_of_le hle with hlt | heq
    · exact .inl hlt
    · -- With files of one length the two forms differ only behind the file.
      obtain ⟨-, hrest⟩ := List.append_inj (hgtext.symm.trans htext) heq.symm
      have hg' := hbefore { g with file := [] } ⟨List.not_mem_nil, hg.header, hg.body⟩ rfl hrest
      simp only [LineForm.Before, hfile, Nat.lt_irrefl, false_or, true_and] at hg'
      exact .inr ⟨heq, hg'⟩

/-- Every diagnostic line is read. -/
theorem exists_ofLine? {f : LineForm} (hvalid : f.Valid) :
    ∃ parts, ofLine? f.text = some parts := by
  obtain ⟨parts, hparts⟩ := exists_afterFile? hvalid.header hvalid.body
  obtain ⟨file, parts', hrun, -⟩ := Text.exists_shortestRun? hvalid.file hparts
  rw [← List.append_assoc] at hrun
  exact ⟨_, Option.map_eq_some_iff.2 ⟨_, hrun, rfl⟩⟩

end LineParts

namespace LineForm

variable {f g : LineForm} {cs : List Char}

/-- A text has at most one preferred form. -/
theorem Reads.unique (hf : f.Reads cs) (hg : g.Reads cs) : f = g := by
  obtain ⟨hvalid, htext, hbefore⟩ := hf
  obtain ⟨hvalid', htext', hbefore'⟩ := hg
  have hfg := hbefore g hvalid' htext'
  have hgf := hbefore' f hvalid htext
  simp only [Before] at hfg hgf
  have heq := htext.trans htext'.symm
  simp only [text, List.append_assoc] at heq
  obtain ⟨hfile, heq⟩ := List.append_inj heq (by omega)
  obtain ⟨hline, hcolumn, hsgap, hseverity, heq⟩ :=
    HeaderForm.text_append_inj hvalid.header hvalid'.header heq
  obtain ⟨hmgap, heq⟩ := List.append_inj heq (by omega)
  have hbody := BodyForm.text_inj hvalid.body hvalid'.body heq (by omega)
  obtain ⟨⟨_, _, _, _, _⟩, _, _⟩ := f
  obtain ⟨⟨_, _, _, _, _⟩, _, _⟩ := g
  simp_all

/-- A text with a valid form has a preferred one. -/
theorem exists_reads (hvalid : f.Valid) : ∃ g : LineForm, g.Reads f.text := by
  obtain ⟨parts, hparts⟩ := LineParts.exists_ofLine? hvalid
  obtain ⟨g, hreads, -⟩ := LineParts.ofLine?_sound hparts
  exact ⟨g, hreads⟩

/-- The message of the preferred form ends with no blank: one there would belong to the blanks in
front of the rule. -/
theorem Reads.message_end (h : f.Reads cs) :
    ∀ c ∈ f.message.getLast?, Text.isBlank c = false := by
  obtain ⟨hvalid, htext, hbefore⟩ := h
  intro c hc
  obtain ⟨message, hmessage⟩ := List.getLast?_eq_some_iff.1 hc
  by_contra hblank
  let g : LineForm := { f with message, ruleGap := c :: f.ruleGap }
  have hg : g.Valid := by
    refine ⟨hvalid.file, hvalid.header, ?_, ?_, hvalid.body.rule, hvalid.body.ending⟩
    · exact fun hmem => hvalid.body.message (hmessage ▸ List.mem_append_left [c] hmem)
    · exact List.forall_mem_cons.2 ⟨Bool.of_not_eq_false hblank, hvalid.body.ruleGap⟩
  have hgtext : g.text = cs := by
    rw [← htext]
    simp [g, text, HeaderForm.text, BodyForm.text, hmessage]
  have hshorter := hbefore g hg hgtext
  simp only [Before, g, hmessage, List.length_append, List.length_singleton] at hshorter
  omega

/-- The message of the preferred form starts with no blank: one there would belong to the blanks in
front of the message. -/
theorem Reads.message_start (h : f.Reads cs) :
    ∀ c ∈ f.message.head?, Text.isBlank c = false := by
  obtain ⟨hvalid, htext, hbefore⟩ := h
  intro c hc
  obtain ⟨message, hmessage⟩ := List.head?_eq_some_iff.1 hc
  by_contra hblank
  let g : LineForm := { f with messageGap := f.messageGap ++ [c], message }
  have hg : g.Valid := by
    refine ⟨hvalid.file, ?_, ?_, hvalid.body.ruleGap, hvalid.body.rule, hvalid.body.ending⟩
    · obtain ⟨hline, hcolumn, hsgap, -, hmgap⟩ := hvalid.header
      refine ⟨hline, hcolumn, hsgap, by simp [g], List.forall_mem_append.2 ⟨hmgap, ?_⟩⟩
      simpa using hblank
    · exact fun hmem => hvalid.body.message (hmessage ▸ List.mem_cons_of_mem c hmem)
  have hgtext : g.text = cs := by
    rw [← htext]
    simp [g, text, HeaderForm.text, BodyForm.text, hmessage]
  have hlonger := hbefore g hg hgtext
  simp only [Before, g, List.length_append, List.length_singleton] at hlonger
  omega

/-- Every opening bracket in the message of the preferred form has a closing bracket behind it:
otherwise it would open the rule. -/
theorem Reads.message_brackets (h : f.Reads cs) {before after : List Char}
    (hmessage : f.message = before ++ '[' :: after) : ']' ∈ after := by
  obtain ⟨hvalid, htext, hbefore⟩ := h
  by_contra hmem
  let g : LineForm :=
    { f with message := before, ruleGap := [], rule := after ++ f.ruleGap ++ '[' :: f.rule }
  have hg : g.Valid := by
    refine ⟨hvalid.file, hvalid.header, ?_, by simp [g], ⟨by simp [g], ?_⟩, hvalid.body.ending⟩
    · have hfeed := hvalid.body.message
      simp only [hmessage, List.mem_append, not_or] at hfeed
      exact hfeed.1
    · have hgap : ']' ∉ f.ruleGap := Text.not_mem_run hvalid.body.ruleGap rfl
      simp [g, hmem, hgap, hvalid.body.rule.2]
  have hgtext : g.text = cs := by
    rw [← htext]
    simp [g, text, HeaderForm.text, BodyForm.text, hmessage]
  have hshorter := hbefore g hg hgtext
  simp only [Before, g, hmessage, List.length_append, List.length_cons] at hshorter
  omega

end LineForm

namespace Diagnostic

variable {f : LineForm} {cs : List Char}

/-- A text with a preferred form states the diagnostic of that form, unless a number in it is too
great. -/
theorem ofLine?_of_reads (h : f.Reads cs) :
    ofLine? cs = if f.Fits then some f.diagnostic else none := by
  obtain ⟨parts, hparts⟩ := LineParts.exists_ofLine? h.1
  rw [h.2.1] at hparts
  obtain ⟨g, hg, rfl⟩ := LineParts.ofLine?_sound hparts
  obtain rfl := hg.unique h
  rw [ofLine?, hparts, Option.bind_some, LineParts.diagnostic?]
  simp only [LineForm.parts, Text.trimEnd_eq_self h.message_end]
  rfl

/-- A text without a valid form states no diagnostic. -/
theorem ofLine?_eq_none (h : ∀ f : LineForm, f.Valid → f.text ≠ cs) : ofLine? cs = none := by
  cases hparts : LineParts.ofLine? cs with
  | none => rw [ofLine?, hparts, Option.bind_none]
  | some parts =>
      obtain ⟨f, hf, -⟩ := LineParts.ofLine?_sound hparts
      exact absurd hf.2.1 (h f hf.1)

/-- A text states exactly the diagnostic of its preferred form, if the numbers fit. -/
theorem ofLine?_eq_some_iff {d : Diagnostic} :
    ofLine? cs = some d ↔ ∃ f : LineForm, f.Reads cs ∧ f.Fits ∧ f.diagnostic = d := by
  constructor
  · intro h
    obtain ⟨parts, hparts, -⟩ := Option.bind_eq_some_iff.1 h
    obtain ⟨f, hf, -⟩ := LineParts.ofLine?_sound hparts
    rw [ofLine?_of_reads hf] at h
    split at h
    · next hfits => exact ⟨f, hf, hfits, Option.some.inj h⟩
    · contradiction
  · rintro ⟨f, hf, hfits, rfl⟩
    rw [ofLine?_of_reads hf, if_pos hfits]

/-- Every text either has no valid form and states no diagnostic, or it has exactly one preferred
form and states the diagnostic of that form, unless a number in it is too great. -/
theorem ofLine?_eq_preferred_form (cs : List Char) :
    (∀ f : LineForm, f.Valid → f.text ≠ cs) ∧ ofLine? cs = none ∨
      ∃ f : LineForm, f.Reads cs ∧ (∀ g : LineForm, g.Reads cs → g = f) ∧
        ofLine? cs = if f.Fits then some f.diagnostic else none := by
  by_cases h : ∀ f : LineForm, f.Valid → f.text ≠ cs
  · exact .inl ⟨h, ofLine?_eq_none h⟩
  · simp only [not_forall, not_not] at h
    obtain ⟨f, hvalid, rfl⟩ := h
    obtain ⟨g, hg⟩ := LineForm.exists_reads hvalid
    exact .inr ⟨g, hg, fun _ hother => hother.unique hg, ofLine?_of_reads hg⟩

end Diagnostic

end LintSarif
