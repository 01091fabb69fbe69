import LintSarif.Proofs.Diagnostic.RoundTrip

/-!
# What a line can state

Whatever a line holds, line feeds included, the diagnostic that it states is `WellFormed`. The reader
checks none of this: it follows from which form of the line is preferred. Blanks behind a line belong
to the ending of every form of it, so they change nothing (`ofLine?_append_blanks`). Read
`ofLine?_invariants` first.
-/

namespace LintSarif

/-- The conditions on the fields of `d` that hold of whatever a line states. Unlike an `Unambiguous`
diagnostic, `d` may have a header in its file. -/
structure Diagnostic.WellFormed (d : Diagnostic) : Prop where
  file : '\n' ∉ d.file.toList
  message : '\n' ∉ d.message.toList
  message_start : ∀ c ∈ d.message.toList.head?, Text.isBlank c = false
  message_end : ∀ c ∈ d.message.toList.getLast?, Text.isBlank c = false
  /-- Every opening bracket of the message has a closing bracket behind it. -/
  message_brackets :
    ∀ before after, d.message.toList = before ++ '[' :: after → ']' ∈ after
  rule : d.rule ≠ "" ∧ ']' ∉ d.rule.toList

namespace LineForm

variable {f g : LineForm} {cs blanks : List Char}

/-- What the preferred form of a line states is well formed. -/
theorem Reads.wellFormed (h : f.Reads cs) : f.diagnostic.WellFormed := by
  have hvalid := h.1
  have hrule : String.ofList f.rule ≠ "" := by
    simpa [← String.toList_inj] using hvalid.body.rule.1
  constructor <;> simp only [diagnostic, String.toList_ofList]
  · exact hvalid.file
  · exact hvalid.body.message
  · exact h.message_start
  · exact h.message_end
  · exact fun _ _ hmessage => h.message_brackets hmessage
  · exact ⟨hrule, hvalid.body.rule.2⟩

/-! ## Blanks behind a line -/

/-- `f.padded blanks` is the form `f` with more blanks at the end of the line. -/
def padded (f : LineForm) (blanks : List Char) : LineForm :=
  { f with ending := f.ending ++ blanks }

theorem text_padded (f : LineForm) (blanks : List Char) :
    (f.padded blanks).text = f.text ++ blanks := by
  simp [padded, text, BodyForm.text]

theorem Valid.padded (hvalid : f.Valid) (hblanks : ∀ c ∈ blanks, Text.isBlank c = true) :
    (f.padded blanks).Valid where
  file := hvalid.file
  header := hvalid.header
  body := {
    message := hvalid.body.message
    ruleGap := hvalid.body.ruleGap
    rule := hvalid.body.rule
    ending := List.forall_mem_append.2 ⟨hvalid.body.ending, hblanks⟩ }

/-- Blanks behind a diagnostic line belong to its ending: the bracket that closes the rule is no
blank. -/
theorem Valid.exists_padded (hvalid : g.Valid) (hblanks : ∀ c ∈ blanks, Text.isBlank c = true)
    (htext : g.text = cs ++ blanks) :
    ∃ f : LineForm, f.Valid ∧ f.text = cs ∧ f.padded blanks = g := by
  have hbracket : ']' ∉ blanks := Text.not_mem_run hblanks rfl
  have hsplit : g.file ++ g.toHeaderForm.text ++ g.message ++ g.ruleGap ++ '[' :: g.rule ++
      ']' :: g.ending = cs ++ blanks := by
    rw [← htext]
    simp [text, BodyForm.text]
  obtain ⟨ending, rfl, hending⟩ := Text.exists_append_cons_of_not_mem_end hbracket hsplit
  refine ⟨{ g with ending }, ⟨hvalid.file, hvalid.header, ?_⟩, ?_, ?_⟩
  · refine ⟨hvalid.body.message, hvalid.body.ruleGap, hvalid.body.rule, fun c hc => ?_⟩
    exact hvalid.body.ending c (hending ▸ List.mem_append_left blanks hc)
  · simp [text, BodyForm.text]
  · rw [LineForm.padded, ← hending]

/-- The preferred form of a text stays preferred when there are more blanks at the end. -/
theorem Reads.padded (h : f.Reads cs) (hblanks : ∀ c ∈ blanks, Text.isBlank c = true) :
    (f.padded blanks).Reads (cs ++ blanks) := by
  obtain ⟨hvalid, rfl, hbefore⟩ := h
  refine ⟨hvalid.padded hblanks, text_padded f blanks, fun g hg htext => ?_⟩
  obtain ⟨shorter, hshorter, hcs, rfl⟩ := hg.exists_padded hblanks htext
  exact hbefore shorter hshorter hcs

end LineForm

namespace Diagnostic

variable {cs : List Char} {d : Diagnostic}

/-- Blanks behind a line do not change what it states, nor whether it states anything. -/
theorem ofLine?_append_blanks (cs : List Char) {blanks : List Char}
    (hblanks : ∀ c ∈ blanks, Text.isBlank c = true) : ofLine? (cs ++ blanks) = ofLine? cs := by
  by_cases h : ∃ f : LineForm, f.Valid ∧ f.text = cs
  · obtain ⟨f, hvalid, rfl⟩ := h
    obtain ⟨g, hg⟩ := LineForm.exists_reads hvalid
    rw [ofLine?_of_reads hg, ofLine?_of_reads (hg.padded hblanks)]
    rfl
  · have hcs : ofLine? cs = none := ofLine?_eq_none fun f hvalid htext => h ⟨f, hvalid, htext⟩
    have hlonger : ofLine? (cs ++ blanks) = none := by
      refine ofLine?_eq_none fun g hg htext => h ?_
      obtain ⟨f, hvalid, htext, -⟩ := hg.exists_padded hblanks htext
      exact ⟨f, hvalid, htext⟩
    rw [hcs, hlonger]

/-- What a line states is well formed. -/
theorem wellFormed_of_ofLine? (h : ofLine? cs = some d) : d.WellFormed := by
  obtain ⟨f, hreads, -, rfl⟩ := ofLine?_eq_some_iff.1 h
  exact hreads.wellFormed

/-- The message that is read needs no trimming. -/
theorem trimEnd_message {parts : LineParts} (h : LineParts.ofLine? cs = some parts) :
    Text.trimEnd parts.message = parts.message := by
  obtain ⟨f, hreads, rfl⟩ := LineParts.ofLine?_sound h
  exact Text.trimEnd_eq_self hreads.message_end

/-- Whatever a line holds, the diagnostic that it states is well formed, the blanks that the reader
drops at the end of the message are none, and blanks behind the line change nothing. -/
theorem ofLine?_invariants (cs : List Char) :
    (∀ d, ofLine? cs = some d → d.WellFormed) ∧
      (∀ parts, LineParts.ofLine? cs = some parts →
        Text.trimEnd parts.message = parts.message) ∧
      ∀ blanks : List Char, (∀ c ∈ blanks, Text.isBlank c = true) →
        ofLine? (cs ++ blanks) = ofLine? cs :=
  ⟨fun _ => wellFormed_of_ofLine?, fun _ => trimEnd_message,
    fun _ => ofLine?_append_blanks cs⟩

end Diagnostic

end LintSarif
