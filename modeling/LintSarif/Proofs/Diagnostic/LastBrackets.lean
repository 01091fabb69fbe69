import LintSarif.Proofs.Diagnostic.SingleScan
import LintSarif.Text.LineBreak

/-!
# The last brackets of a line

The rule of a diagnostic ends with the last closing bracket of its line, but it need not start with
the last opening one: it starts with the first one that is not closed before. So an opening bracket
in the message that nothing closes takes the rest of the message into the rule. Read
`rule_in_last_brackets_iff` first; `rule_holds_unclosed_bracket` is a line with such a message.
-/

namespace LintSarif

/-! ## Brackets of a text -/

namespace Text

/-- `Closed cs` holds when every opening bracket of `cs` has a closing bracket behind it. -/
def Closed (cs : List Char) : Prop :=
  ∀ before after, cs = before ++ '[' :: after → ']' ∈ after

/-- `LastBrackets cs before inner` holds when `inner` stands between the last opening and the last
closing bracket of `cs`, and `before` in front of the opening one. -/
def LastBrackets (cs before inner : List Char) : Prop :=
  ∃ after, cs = before ++ '[' :: (inner ++ ']' :: after) ∧ '[' ∉ inner ++ after ∧ ']' ∉ after

/-- `OpenGroup cs before inner` holds when `inner` stands between the first opening bracket of `cs`
that no bracket closes before the last closing one, and that closing one, and `before` in front of
the opening one. -/
def OpenGroup (cs before inner : List Char) : Prop :=
  ∃ after, cs = before ++ '[' :: (inner ++ ']' :: after) ∧ Closed before ∧ ']' ∉ inner ++ after

variable {c : Char} {cs before inner : List Char}

/-- A text falls apart at the last of some characters. -/
theorem exists_append_cons_last (h : c ∈ cs) :
    ∃ before after, cs = before ++ c :: after ∧ c ∉ after := by
  obtain ⟨before, after, rfl, hlast, hafter⟩ := exists_append_of_last c cs
  cases before using List.reverseRecOn with
  | nil => exact absurd h hafter
  | append_singleton before x =>
      obtain rfl := hlast x (by simp)
      exact ⟨before, after, by simp, hafter⟩

/-- More text in front of the last brackets leaves them the last. -/
theorem LastBrackets.append_left (h : LastBrackets cs before inner) (ahead : List Char) :
    LastBrackets (ahead ++ cs) (ahead ++ before) inner := by
  obtain ⟨after, rfl, hopen, hclose⟩ := h
  exact ⟨after, (List.append_assoc _ _ _).symm, hopen, hclose⟩

end Text

/-! ## The rule of a line -/

namespace LineParts.LastGroup

variable {closed lead rule ending : List Char}

/-- The rule at the end of a line starts with the first bracket that is not closed before. -/
theorem openGroup (h : LastGroup closed lead rule ending) :
    Text.OpenGroup (closed ++ lead ++ '[' :: rule ++ ']' :: ending) (closed ++ lead) rule := by
  have hending : ']' ∉ ending := Text.not_mem_run h.ending rfl
  refine ⟨ending, by simp, fun _ _ hmessage => h.message_brackets hmessage, ?_⟩
  simp [h.rule.2, hending]

/-- The rule at the end of a line ends with what stands between the last brackets, and it is no
longer than that exactly when every opening bracket in front of the last one is closed before it. -/
theorem exists_lastBrackets (h : LastGroup closed lead rule ending) :
    ∃ before inner : List Char,
      Text.LastBrackets (closed ++ lead ++ '[' :: rule ++ ']' :: ending) before inner ∧
        inner <:+ rule ∧ (rule = inner ↔ Text.Closed before) := by
  have hopenEnd : '[' ∉ ending := Text.not_mem_run h.ending rfl
  have hcloseEnd : ']' ∉ ending := Text.not_mem_run h.ending rfl
  by_cases hmem : '[' ∈ rule
  · obtain ⟨more, inner, hrule, hinner⟩ := Text.exists_append_cons_last hmem
    refine ⟨closed ++ lead ++ '[' :: more, inner, ?_, ?_, fun heq => ?_, fun hclosed => ?_⟩
    · exact ⟨ending, by simp [hrule], by simp [hinner, hopenEnd], hcloseEnd⟩
    · exact ⟨more ++ ['['], by simp [hrule]⟩
    · exact absurd hmem (heq ▸ hinner)
    · -- The bracket that opens the rule is not closed inside the rule.
      have hclose : ']' ∈ more := hclosed (closed ++ lead) more rfl
      exact absurd (hrule ▸ List.mem_append_left _ hclose) h.rule.2
  · refine ⟨closed ++ lead, rule, ?_, List.suffix_rfl, ?_⟩
    · exact ⟨ending, by simp, by simp [hmem, hopenEnd], hcloseEnd⟩
    · exact iff_of_true rfl fun _ _ hmessage => h.message_brackets hmessage

end LineParts.LastGroup

namespace Diagnostic

variable {cs : List Char} {d : Diagnostic}

/-- Behind the first header of a line without line feeds, the rule stands between the first bracket
that is not closed before and the last closing bracket. So it ends with what stands between the last
brackets of the line, and it is no longer than that exactly when every opening bracket between the
header and the last one is closed before the last one. -/
theorem rule_in_last_brackets_iff (hfeed : '\n' ∉ cs) (h : ofLine? cs = some d) :
    ∃ (form : HeaderForm) (rest message before inner : List Char),
      form.IsFirst cs d.file.toList rest ∧ Text.OpenGroup rest message d.rule.toList ∧
        Text.LastBrackets cs (d.file.toList ++ form.text ++ before) inner ∧
        inner <:+ d.rule.toList ∧ (d.rule.toList = inner ↔ Text.Closed before) := by
  obtain ⟨form, rest, message, hfirst, hfound, -, -⟩ := exists_isFirst_of_ofLine? hfeed h
  obtain ⟨closed, lead, ending, hgroup, rfl, rfl⟩ := LineParts.exists_lastGroup hfound
  obtain ⟨before, inner, hlast, hsuffix, hiff⟩ := hgroup.exists_lastBrackets
  have hline := hlast.append_left (d.file.toList ++ form.text)
  rw [List.append_assoc d.file.toList, ← hfirst.split] at hline
  exact ⟨form, _, _, before, inner, hfirst, hgroup.openGroup, hline, hsuffix, hiff⟩

/-- Brackets of the message that are closed, and closing ones on their own, leave the last brackets
to the rule. -/
theorem rule_in_last_brackets_iff_balanced :
    let line := "a.c:3:4: error: index [0] or 1] of [a[b] [bounds] ".toList
    let d : Diagnostic := ⟨"a.c", 2, 3, .error, "index [0] or 1] of [a[b]", "bounds"⟩
    '\n' ∉ line ∧ ofLine? line = some d ∧
      ∃ (form : HeaderForm) (rest message before inner : List Char),
        form.IsFirst line d.file.toList rest ∧ Text.OpenGroup rest message d.rule.toList ∧
          Text.LastBrackets line (d.file.toList ++ form.text ++ before) inner ∧
          inner <:+ d.rule.toList ∧ (d.rule.toList = inner ↔ Text.Closed before) := by
  intro line d
  have hfeed : '\n' ∉ line := by
    decide +kernel
  have hread : ofLine? line = some d := by
    decide +kernel
  exact ⟨hfeed, hread, rule_in_last_brackets_iff hfeed hread⟩

/-- The message of this line speaks of a bracket that nothing closes. So the rule starts with the
rest of the message and holds the brackets of the rule that is meant. -/
theorem rule_holds_unclosed_bracket :
    let line := "a.c:3:4: note: to match this '[' [bugprone-brackets]".toList
    let d : Diagnostic := ⟨"a.c", 2, 3, .note, "to match this '", "' [bugprone-brackets"⟩
    (∀ c ∈ line, Text.isLineBreak c = false) ∧ ofLine? line = some d ∧
      Text.LastBrackets line "a.c:3:4: note: to match this '[' ".toList
        "bugprone-brackets".toList ∧
      d.rule.toList ≠ "bugprone-brackets".toList ∧ '[' ∈ d.rule.toList := by
  intro line d
  have hbreak : line.all (fun c => !Text.isLineBreak c) = true := by
    decide +kernel
  have hread : ofLine? line = some d := by
    decide +kernel
  have hlast : Text.LastBrackets line "a.c:3:4: note: to match this '[' ".toList
      "bugprone-brackets".toList := by
    refine ⟨[], ?_, ?_, ?_⟩ <;> decide +kernel
  refine ⟨fun c hc => ?_, hread, hlast, by decide +kernel, by decide +kernel⟩
  simpa using List.all_eq_true.1 hbreak c hc

end Diagnostic

end LintSarif
