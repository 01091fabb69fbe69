import LintSarif.Diagnostic.Grammar
import LintSarif.Diagnostic.Reader
import LintSarif.Proofs.Text.Token

/-!
# The header of a diagnostic line

`LineParts.header?` reads the headers of the grammar and nothing else, up to the last of the blanks
in front of the message: `HeaderForm.header?_text_append` and `LineParts.header?_sound`. A text has
at most one header at its head, apart from where the blanks after it are cut
(`HeaderForm.text_append_inj`).
-/

namespace LintSarif

namespace Severity

/-- The word of a severity holds no colon and no blank. -/
theorem token_chars (s : Severity) :
    ∀ c ∈ s.token.toList, c ≠ ':' ∧ Text.isBlank c = false := by
  intro c hc
  have hall : (s.token.toList.all fun c => c != ':' && !Text.isBlank c) = true := by
    cases s <;> decide
  simpa using List.all_eq_true.1 hall c hc

/-- A severity is determined by its word. -/
theorem token_toList_inj {s t : Severity} (h : s.token.toList = t.token.toList) : s = t := by
  have hs := read?_append s []
  rw [h, read?_append] at hs
  exact (Prod.mk.inj (Option.some.inj hs)).1.symm

/-- No blank is dropped in front of a severity. -/
theorem dropWhile_token_append (s : Severity) (rest : List Char) :
    (s.token.toList ++ rest).dropWhile Text.isBlank = s.token.toList ++ rest := by
  cases s <;> rfl

end Severity

namespace HeaderForm

/-- `h.header` is the position and the severity that the header `h` states. -/
def header (h : HeaderForm) : LineParts.Header :=
  ⟨Text.Numeral.value h.lineDigits, Text.Numeral.value h.columnDigits, h.severity⟩

/-- A header is read up to the last of the blanks after it. -/
theorem header?_text_append {h : HeaderForm} (hvalid : h.Valid) (rest : List Char) :
    LineParts.header? (h.text ++ rest) = some (h.header, rest.dropWhile Text.isBlank) := by
  have hcolon : ∀ rest, List.dropWhile Char.isDigit (':' :: rest) = ':' :: rest := fun _ => rfl
  obtain ⟨⟨hl, hline⟩, ⟨hc, hcolumn⟩, ⟨hs, hsgap⟩, hm, hmgap⟩ := hvalid
  simp only [LineParts.header?, text, List.append_assoc, List.cons_append, Text.literal?_singleton,
    bind, Option.bind_some, Text.number?_append hl hline (hcolon _),
    Text.number?_append hc hcolumn (hcolon _), Text.blanks?_append hs hsgap,
    Severity.dropWhile_token_append, Severity.read?_append, Text.blanks?_append hm hmgap]
  rfl

end HeaderForm

/-- What is read as a header is a header of the grammar, and no blank follows it. -/
theorem LineParts.header?_sound {cs rest : List Char} {header : LineParts.Header}
    (h : LineParts.header? cs = some (header, rest)) :
    ∃ form : HeaderForm, form.Valid ∧ form.header = header ∧ cs = form.text ++ rest ∧
      rest.dropWhile Text.isBlank = rest := by
  simp only [LineParts.header?, bind, Option.bind_eq_some_iff, Text.literal?_eq_some_iff] at h
  obtain ⟨_, rfl, ⟨_, _⟩, hline, _, rfl, ⟨_, _⟩, hcolumn, _, rfl, _, hsgap, ⟨severity, _⟩, hsev,
    _, rfl, _, hmgap, heq⟩ := h
  cases heq
  obtain ⟨lineDigits, hl, hlines, rfl, rfl⟩ := Text.number?_sound hline
  obtain ⟨columnDigits, hc, hcolumns, rfl, rfl⟩ := Text.number?_sound hcolumn
  obtain ⟨severityGap, hs, hsblank, rfl, -⟩ := Text.blanks?_sound hsgap
  obtain rfl := Severity.read?_sound hsev
  obtain ⟨messageGap, hm, hmblank, rfl, hrest⟩ := Text.blanks?_sound hmgap
  refine ⟨⟨lineDigits, columnDigits, severityGap, severity, messageGap⟩,
    ⟨⟨hl, hlines⟩, ⟨hc, hcolumns⟩, ⟨hs, hsblank⟩, ⟨hm, hmblank⟩⟩, rfl, ?_, hrest⟩
  simp [HeaderForm.text]

namespace HeaderForm

variable {h h' : HeaderForm} {rest rest' : List Char}

/-- Two headers at the head of one text differ only in where the blanks after them are cut. -/
theorem text_append_inj (hvalid : h.Valid) (hvalid' : h'.Valid)
    (heq : h.text ++ rest = h'.text ++ rest') :
    h.lineDigits = h'.lineDigits ∧ h.columnDigits = h'.columnDigits ∧
      h.severityGap = h'.severityGap ∧ h.severity = h'.severity ∧
      h.messageGap ++ rest = h'.messageGap ++ rest' := by
  have hcolon : Char.isDigit ':' = false := by decide
  have hword : ∀ s : Severity, ':' ∉ s.token.toList := fun s hmem => (s.token_chars _ hmem).1 rfl
  simp only [text, List.append_assoc, List.cons_append, List.cons.injEq, true_and] at heq
  obtain ⟨hline, -, heq⟩ := Text.run_append_cons_inj hvalid.lineDigits.2 hcolon
    hvalid'.lineDigits.2 hcolon heq
  obtain ⟨hcolumn, -, heq⟩ := Text.run_append_cons_inj hvalid.columnDigits.2 hcolon
    hvalid'.columnDigits.2 hcolon heq
  obtain ⟨hgap, heq⟩ := Text.run_append_inj hvalid.severityGap.2
    (Severity.dropWhile_token_append _ _) hvalid'.severityGap.2
    (Severity.dropWhile_token_append _ _) heq
  obtain ⟨hseverity, heq⟩ := Text.append_cons_inj_of_not_mem (hword _) (hword _) heq
  exact ⟨hline, hcolumn, hgap, Severity.token_toList_inj hseverity, heq⟩

/-- A header that starts in front of another one ends in front of it, up to the first of the blanks
behind its severity. -/
theorem exists_prefix_of_append (hvalid : h.Valid) (hvalid' : h'.Valid) {ahead : List Char}
    (hne : ahead ≠ []) (heq : ahead ++ (h.text ++ rest) = h'.text ++ rest') :
    ∃ first : HeaderForm, first.Valid ∧ first.messageGap.length = 1 ∧ first.text <+: ahead := by
  have hword : ':' ∉ h'.severityGap ++ h'.severity.token.toList := by
    intro hmem
    rcases List.mem_append.1 hmem with hmem | hmem
    · exact Text.not_mem_run hvalid'.severityGap.2 rfl hmem
    · exact (h'.severity.token_chars _ hmem).1 rfl
  have hnotBlank : ∀ {x : Char} {gap more more' : List Char}, Text.isBlank x = false →
      gap ≠ [] ∧ (∀ c ∈ gap, Text.isBlank c = true) → x :: more ≠ gap ++ more' := by
    intro x gap _ _ hx ⟨hne, hgap⟩ heq
    rw [hgap x (Text.mem_of_cons_eq_append hne heq)] at hx
    contradiction
  obtain ⟨x, line, hline⟩ := List.exists_cons_of_ne_nil hvalid.lineDigits.1
  obtain ⟨y, column, hcolumn⟩ := List.exists_cons_of_ne_nil hvalid.columnDigits.1
  have hx := Text.isBlank_of_isDigit (hvalid.lineDigits.2 x (by simp [hline]))
  have hy := Text.isBlank_of_isDigit (hvalid.columnDigits.2 y (by simp [hcolumn]))
  -- None of the colons of `h'` is the first colon of `h`, since digits, a colon and digits follow
  -- that one.
  obtain ⟨c, ahead, rfl⟩ := List.exists_cons_of_ne_nil hne
  simp only [text, List.append_assoc, List.cons_append, List.cons.injEq] at heq
  obtain ⟨rfl, hfirst⟩ := heq
  obtain ⟨rfl, heq⟩ | ⟨ahead, rfl, hsecond⟩ :=
    Text.eq_or_exists_of_append_cons (Text.not_mem_run hvalid'.lineDigits.2 rfl) hfirst
  · obtain ⟨-, -, heq⟩ := Text.run_append_cons_inj hvalid.lineDigits.2 (by decide)
      hvalid'.columnDigits.2 (by decide) heq
    rw [hcolumn] at heq
    exact absurd heq (hnotBlank hy hvalid'.severityGap)
  obtain ⟨rfl, heq⟩ | ⟨ahead, rfl, hthird⟩ :=
    Text.eq_or_exists_of_append_cons (Text.not_mem_run hvalid'.columnDigits.2 rfl) hsecond
  · rw [hline] at heq
    exact absurd heq (hnotBlank hx hvalid'.severityGap)
  rw [← List.append_assoc h'.severityGap] at hthird
  obtain ⟨rfl, heq⟩ | ⟨ahead, rfl, hfourth⟩ := Text.eq_or_exists_of_append_cons hword hthird
  · rw [hline] at heq
    exact absurd heq (hnotBlank hx hvalid'.messageGap)
  cases ahead with
  | nil => exact absurd hfourth (hnotBlank (by decide) hvalid'.messageGap)
  | cons blank ahead =>
      have hblank := hvalid'.messageGap.2 blank
        (Text.mem_of_cons_eq_append hvalid'.messageGap.1 hfourth)
      refine ⟨{ h' with messageGap := [blank] }, ?_, rfl, ahead, by simp [text]⟩
      exact ⟨hvalid'.lineDigits, hvalid'.columnDigits, hvalid'.severityGap, by simp [hblank]⟩

end HeaderForm

end LintSarif
