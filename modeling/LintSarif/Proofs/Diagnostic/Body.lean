import LintSarif.Diagnostic.Grammar
import LintSarif.Diagnostic.Reader
import LintSarif.Proofs.Text.Token

/-!
# The message and the rule of a diagnostic line

`LineParts.body?` cuts the text at its closing brackets, while the grammar speaks of the text as a
whole. `LineParts.body?_sound` and `BodyForm.exists_body?` say that the two agree: what is read is a
body of the grammar, and it is one with the shortest message.
-/

namespace LintSarif

namespace LineParts

variable {cs gap rule : List Char}

/-- An open rule is read behind its blanks and its bracket. -/
theorem openRule?_append (hgap : ∀ c ∈ gap, Text.isBlank c = true) (hrule : rule ≠ []) :
    openRule? (gap ++ '[' :: rule) = some rule := by
  obtain ⟨c, rule, rfl⟩ := List.exists_cons_of_ne_nil hrule
  have hdrop : (gap ++ '[' :: c :: rule).dropWhile Text.isBlank = '[' :: c :: rule :=
    List.dropWhile_append_of_pos hgap
  simp only [openRule?, hdrop]

/-- In front of an open rule there are only blanks and its bracket. -/
theorem openRule?_sound (h : openRule? cs = some rule) :
    rule ≠ [] ∧ ∃ gap, (∀ c ∈ gap, Text.isBlank c = true) ∧ cs = gap ++ '[' :: rule := by
  rw [openRule?] at h
  split at h
  · next c rest hdrop =>
      cases h
      refine ⟨List.cons_ne_nil _ _, cs.takeWhile Text.isBlank,
        fun _ => List.mem_takeWhile_imp, ?_⟩
      rw [← hdrop, List.takeWhile_append_dropWhile]
  · contradiction

/-- Without a closing bracket there is no rule. -/
theorem body?_of_not_mem (h : ']' ∉ cs) : body? cs = none := by
  rw [body?, List.splitOn_eq_singleton h, messageAndRule?]

/-- The rule of a text with one closing bracket stands in front of it. -/
theorem body?_append_last {stretch ending : List Char} (hstretch : ']' ∉ stretch)
    (hending : ']' ∉ ending) :
    body? (stretch ++ ']' :: ending) =
      if Text.isBlankText ending then Text.shortestRun? openRule? stretch else none := by
  rw [body?, List.splitOn_append_cons_self_of_not_mem hstretch, List.splitOn_eq_singleton hending,
    messageAndRule?]

/-- All in front of the first of several closing brackets belongs to the message. -/
theorem body?_append_cons {stretch cs : List Char} (hstretch : ']' ∉ stretch) (hcs : ']' ∈ cs) :
    body? (stretch ++ ']' :: cs) =
      if stretch.contains '\n' then none
      else (body? cs).map fun (message, rule) => (stretch ++ ']' :: message, rule) := by
  obtain ⟨stretch', rest, rfl, hstretch'⟩ := List.eq_append_cons_of_mem hcs
  obtain ⟨first, stretches, hrest⟩ :=
    List.exists_cons_of_ne_nil (List.splitOn_ne_nil ']' rest)
  rw [body?, body?, List.splitOn_append_cons_self_of_not_mem hstretch,
    List.splitOn_append_cons_self_of_not_mem hstretch', hrest, messageAndRule?]
  all_goals simp

/-- What is read as message and rule is a body of the grammar. -/
theorem body?_sound {message rule : List Char} (h : body? cs = some (message, rule)) :
    ∃ b : BodyForm, b.Valid ∧ b.text = cs ∧ b.message = message ∧ b.rule = rule := by
  induction cs using Text.stretch_induction ']' generalizing message with
  | last cs hmem =>
      rw [body?_of_not_mem hmem] at h
      contradiction
  | cons stretch cs hstretch ih =>
      by_cases hcs : ']' ∈ cs
      · rw [body?_append_cons hstretch hcs] at h
        split at h
        · contradiction
        · next hfeed =>
            obtain ⟨⟨message', rule'⟩, hbody, heq⟩ := Option.map_eq_some_iff.1 h
            cases heq
            obtain ⟨b, hvalid, rfl, rfl, rfl⟩ := ih hbody
            refine ⟨{ b with message := stretch ++ ']' :: b.message },
              ⟨?_, hvalid.ruleGap, hvalid.rule, hvalid.ending⟩, ?_, rfl, rfl⟩
            · have := hvalid.message
              simp_all
            · simp [BodyForm.text]
      · rw [body?_append_last hstretch hcs] at h
        split at h
        · next hblank =>
            obtain ⟨rest, rfl, hmessage, hrule⟩ := Text.shortestRun?_sound h
            obtain ⟨hne, gap, hgap, rfl⟩ := openRule?_sound hrule
            simp only [List.mem_append, List.mem_cons, not_or] at hstretch
            exact ⟨⟨message, gap, rule, cs⟩,
              ⟨hmessage, hgap, ⟨hne, hstretch.2.2.2⟩, List.all_eq_true.1 hblank⟩,
              by simp [BodyForm.text], rfl, rfl⟩
        · contradiction

end LineParts

namespace BodyForm

variable {b b' : BodyForm}

/-- A body of the grammar is read, with a message that is no longer. -/
theorem exists_body? (hvalid : b.Valid) :
    ∃ message rule, LineParts.body? b.text = some (message, rule) ∧
      message.length ≤ b.message.length := by
  have hgap : ']' ∉ b.ruleGap := Text.not_mem_run hvalid.ruleGap rfl
  have hending : ']' ∉ b.ending := Text.not_mem_run hvalid.ending rfl
  induction hmessage : b.message using Text.stretch_induction ']' generalizing b with
  | last message hmem =>
      obtain ⟨message', rule, hrun, hlength⟩ := Text.exists_shortestRun? hvalid.message
        (LineParts.openRule?_append hvalid.ruleGap hvalid.rule.1)
      refine ⟨message', rule, ?_, hmessage ▸ hlength⟩
      have hstretch : ']' ∉ b.message ++ (b.ruleGap ++ '[' :: b.rule) := by
        simp [hmessage, hmem, hgap, hvalid.rule.2]
      have htext : b.text = b.message ++ (b.ruleGap ++ '[' :: b.rule) ++ ']' :: b.ending := by
        simp [text]
      rw [htext, LineParts.body?_append_last hstretch hending, hrun]
      exact if_pos (List.all_eq_true.2 hvalid.ending)
  | cons stretch message hstretch ih =>
      have hfeed := hvalid.message
      simp only [hmessage, List.mem_append, List.mem_cons, not_or] at hfeed
      obtain ⟨message', rule, hbody, hlength⟩ := ih (b := { b with message })
        ⟨hfeed.2.2, hvalid.ruleGap, hvalid.rule, hvalid.ending⟩ hgap hending rfl
      refine ⟨stretch ++ ']' :: message', rule, ?_, by simpa using hlength⟩
      have htext : b.text = stretch ++ ']' :: text { b with message } := by
        simp [text, hmessage]
      rw [htext, LineParts.body?_append_cons hstretch (by simp [text]), hbody]
      simp [hfeed.1]

/-- What is left of a body without the blanks at its head is a body with a message that is no
longer. -/
theorem exists_dropWhile (hvalid : b.Valid) :
    ∃ b' : BodyForm, b'.Valid ∧ b'.text = b.text.dropWhile Text.isBlank ∧
      b'.message.length ≤ b.message.length := by
  have hbracket : Text.isBlank '[' = false := by decide
  by_cases hblank : ∀ c ∈ b.message, Text.isBlank c = true
  · refine ⟨{ b with message := [], ruleGap := [] },
      ⟨by simp, by simp, hvalid.rule, hvalid.ending⟩, ?_, Nat.zero_le _⟩
    simp [text, List.dropWhile_append_of_pos hblank, List.dropWhile_append_of_pos hvalid.ruleGap,
      hbracket]
  · have hsuffix := List.dropWhile_suffix Text.isBlank (l := b.message)
    have hne : b.message.dropWhile Text.isBlank ≠ [] := mt List.dropWhile_eq_nil_iff.1 hblank
    refine ⟨{ b with message := b.message.dropWhile Text.isBlank },
      ⟨fun hmem => hvalid.message (hsuffix.subset hmem), hvalid.ruleGap, hvalid.rule,
        hvalid.ending⟩, ?_, hsuffix.length_le⟩
    simp [text, List.dropWhile_append, hne]

/-- Two bodies of one text with messages of one length are the same. -/
theorem text_inj (hvalid : b.Valid) (hvalid' : b'.Valid) (htext : b.text = b'.text)
    (hlength : b.message.length = b'.message.length) : b = b' := by
  simp only [text, List.append_assoc, List.cons_append] at htext
  obtain ⟨hmessage, htext⟩ := List.append_inj htext hlength
  obtain ⟨hgap, -, htext⟩ := Text.run_append_cons_inj hvalid.ruleGap (by decide)
    hvalid'.ruleGap (by decide) htext
  obtain ⟨hrule, hending⟩ :=
    Text.append_cons_inj_of_not_mem hvalid.rule.2 hvalid'.rule.2 htext
  cases b
  cases b'
  simp_all

end BodyForm

end LintSarif
