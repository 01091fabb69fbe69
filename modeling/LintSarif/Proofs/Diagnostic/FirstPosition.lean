import LintSarif.Proofs.Diagnostic.SingleScan
import LintSarif.Text.LineBreak
import Mathlib.Data.Nat.Find

/-!
# The first position of a line

A position is a line and a column number between colons. A header starts with one, so the file of a
diagnostic never ends in front of the first position of its line. But it may go on behind it: the
file ends in front of the first *header*, and a position with no severity behind it belongs to the
file. Read `file_ends_at_first_position_iff` first; `file_holds_first_position` is a line whose file
goes on.
-/

namespace LintSarif

/-- A line and a column number between colons, as they are written. -/
structure PositionForm where
  lineDigits : List Char
  columnDigits : List Char
  deriving DecidableEq, Repr

namespace PositionForm

/-- `p.text` is the text that the parts of `p` make up. -/
def text (p : PositionForm) : List Char :=
  ':' :: p.lineDigits ++ ':' :: p.columnDigits ++ [':']

/-- Both numbers of `p` are runs of digits. -/
structure Valid (p : PositionForm) : Prop where
  lineDigits : p.lineDigits ≠ [] ∧ ∀ c ∈ p.lineDigits, c.isDigit = true
  columnDigits : p.columnDigits ≠ [] ∧ ∀ c ∈ p.columnDigits, c.isDigit = true

/-- `StartsAt cs i` holds when a position starts at the index `i` of `cs`. -/
def StartsAt (cs : List Char) (i : Nat) : Prop :=
  ∃ p : PositionForm, p.Valid ∧ p.text <+: cs.drop i

/-- `p.IsFirst cs before after` holds when no position of `cs` starts before `p`, which stands
between `before` and `after`. -/
structure IsFirst (p : PositionForm) (cs before after : List Char) : Prop where
  valid : p.Valid
  split : cs = before ++ (p.text ++ after)
  least : ∀ i < before.length, ¬ StartsAt cs i

variable {p p' : PositionForm} {cs before after rest rest' : List Char}

/-- The position at the head of a text is determined by the text. -/
theorem text_append_inj (hvalid : p.Valid) (hvalid' : p'.Valid)
    (heq : p.text ++ rest = p'.text ++ rest') : p = p' := by
  have hcolon : Char.isDigit ':' = false := by decide
  simp only [text, List.append_assoc, List.cons_append, List.cons.injEq, true_and] at heq
  obtain ⟨hline, -, heq⟩ := Text.run_append_cons_inj hvalid.lineDigits.2 hcolon
    hvalid'.lineDigits.2 hcolon heq
  obtain ⟨hcolumn, -, -⟩ := Text.run_append_cons_inj hvalid.columnDigits.2 hcolon
    hvalid'.columnDigits.2 hcolon heq
  cases p
  cases p'
  simp_all

/-- Where a position starts, the first one starts there or before. -/
theorem StartsAt.exists_isFirst {i : Nat} (h : StartsAt cs i) :
    ∃ (p : PositionForm) (before after : List Char),
      p.IsFirst cs before after ∧ before.length ≤ i := by
  classical
  have hex : ∃ i, StartsAt cs i := ⟨i, h⟩
  obtain ⟨p, hvalid, after, hafter⟩ := Nat.find_spec hex
  have hlength : (cs.take (Nat.find hex)).length ≤ Nat.find hex := List.length_take_le _ _
  refine ⟨p, cs.take (Nat.find hex), after, ⟨hvalid, ?_, fun i hi => ?_⟩, ?_⟩
  · rw [hafter, List.take_append_drop]
  · exact Nat.find_min hex (Nat.lt_of_lt_of_le hi hlength)
  · exact Nat.le_trans hlength (Nat.find_min' hex h)

/-- A position behind a text without colons is the first one. -/
theorem isFirst_of_not_mem (hvalid : p.Valid) (before after : List Char) (hbefore : ':' ∉ before) :
    p.IsFirst (before ++ (p.text ++ after)) before after := by
  refine ⟨hvalid, rfl, fun i hi => ?_⟩
  rintro ⟨other, -, more, hmore⟩
  rw [List.drop_append_of_le_length (Nat.le_of_lt hi), List.drop_eq_getElem_cons hi] at hmore
  have hhead : ':' = before[i] := (List.cons.inj hmore).1
  exact hbefore (hhead ▸ List.getElem_mem hi)

end PositionForm

namespace HeaderForm

variable {h : HeaderForm} {cs file rest : List Char}

/-- `h.position` is the position that the header `h` starts with. -/
def position (h : HeaderForm) : PositionForm :=
  ⟨h.lineDigits, h.columnDigits⟩

theorem text_eq_position (h : HeaderForm) :
    h.text = h.position.text ++
      (h.severityGap ++ h.severity.token.toList ++ ':' :: h.messageGap) := by
  simp [text, PositionForm.text, position]

theorem Valid.position (hvalid : h.Valid) : h.position.Valid :=
  ⟨hvalid.lineDigits, hvalid.columnDigits⟩

/-- Where a header starts, a position starts. -/
theorem StartsAt.position {i : Nat} (h : StartsAt cs i) : PositionForm.StartsAt cs i := by
  obtain ⟨header, hvalid, hprefix⟩ := h
  rw [text_eq_position] at hprefix
  exact ⟨header.position, hvalid.position, (List.prefix_append _ _).trans hprefix⟩

end HeaderForm

namespace Diagnostic

variable {cs : List Char} {d : Diagnostic}

/-- `d.IsAt file p` holds when `d` has the file `file` and the numbers of `p`. -/
def IsAt (d : Diagnostic) (file : List Char) (p : PositionForm) : Prop :=
  d.file.toList = file ∧ d.line = Text.Numeral.value p.lineDigits - 1 ∧
    d.column = Text.Numeral.value p.columnDigits - 1

/-- The diagnostic that a line without line feeds states has the file and the numbers in front of
the severity of the first header. Its file starts with all that stands in front of the first
position, and it is no longer than that exactly when a header starts with this position. -/
theorem file_ends_at_first_position_iff (hfeed : '\n' ∉ cs) (h : ofLine? cs = some d) :
    (∃ (form : HeaderForm) (rest : List Char),
      form.IsFirst cs d.file.toList rest ∧ d.IsAt d.file.toList form.position) ∧
    ∃ (p : PositionForm) (before after : List Char), p.IsFirst cs before after ∧
      before <+: d.file.toList ∧ (d.IsAt before p ↔ HeaderForm.StartsAt cs before.length) := by
  obtain ⟨form, rest, -, hfirst, -, hline, hcolumn⟩ := exists_isFirst_of_ofLine? hfeed h
  refine ⟨⟨form, rest, hfirst, rfl, hline, hcolumn⟩, ?_⟩
  obtain ⟨p, before, after, hp, hle⟩ := hfirst.startsAt.position.exists_isFirst
  have hbefore : before <+: cs := ⟨_, hp.split.symm⟩
  have hfile : d.file.toList <+: cs := ⟨_, hfirst.split.symm⟩
  have hprefix : before <+: d.file.toList := List.prefix_of_prefix_length_le hbefore hfile hle
  refine ⟨p, before, after, hp, hprefix, ?_, fun hstarts => ?_⟩
  · rintro ⟨heq, -, -⟩
    rw [← heq]
    exact hfirst.startsAt
  · have hge : d.file.toList.length ≤ before.length := by
      by_contra hlt
      exact hfirst.least _ (Nat.lt_of_not_le hlt) hstarts
    have heq : before = d.file.toList := hprefix.eq_of_length_le hge
    -- Behind one file there is one position only.
    have hsplit := hp.split.symm.trans hfirst.split
    rw [heq, HeaderForm.text_eq_position, List.append_assoc form.position.text] at hsplit
    have hrest := List.append_cancel_left hsplit
    obtain rfl := PositionForm.text_append_inj hp.valid hfirst.valid.position hrest
    exact ⟨heq.symm, hline, hcolumn⟩

/-- A colon in the file is no position, and positions in the message come too late. -/
theorem file_ends_at_first_position_iff_drive :
    let line := "C:\\src\\a.cpp:7:2: error: see b.h:1:2: [x-y]".toList
    let d : Diagnostic := ⟨"C:\\src\\a.cpp", 6, 1, .error, "see b.h:1:2:", "x-y"⟩
    '\n' ∉ line ∧ ofLine? line = some d ∧
      ∃ (p : PositionForm) (before after : List Char), p.IsFirst line before after ∧
        before <+: d.file.toList ∧ (d.IsAt before p ↔ HeaderForm.StartsAt line before.length) := by
  intro line d
  have hfeed : '\n' ∉ line := by
    decide +kernel
  have hread : ofLine? line = some d := by
    decide +kernel
  exact ⟨hfeed, hread, (file_ends_at_first_position_iff hfeed hread).2⟩

/-- Behind the first position of this line there is no severity but another number. So the file
holds the first number of the first position, and the numbers are those of the second one. -/
theorem file_holds_first_position :
    let line := "src/a.c:1:2:3: warning: m [r]".toList
    let d : Diagnostic := ⟨"src/a.c:1", 1, 2, .warning, "m", "r"⟩
    let p : PositionForm := ⟨['1'], ['2']⟩
    (∀ c ∈ line, Text.isLineBreak c = false) ∧ ofLine? line = some d ∧
      p.IsFirst line "src/a.c".toList "3: warning: m [r]".toList ∧
      d.file.toList ≠ "src/a.c".toList ∧ d.line ≠ Text.Numeral.value p.lineDigits - 1 ∧
      d.column ≠ Text.Numeral.value p.columnDigits - 1 := by
  intro line d p
  have hbreak : line.all (fun c => !Text.isLineBreak c) = true := by
    decide +kernel
  have hread : ofLine? line = some d := by
    decide +kernel
  have hvalid : p.Valid := by
    constructor <;> simp [p]
  have hfirst := PositionForm.isFirst_of_not_mem hvalid "src/a.c".toList
    "3: warning: m [r]".toList (by decide)
  refine ⟨fun c hc => ?_, hread, hfirst, by decide, by decide, by decide⟩
  simpa using List.all_eq_true.1 hbreak c hc

end Diagnostic

end LintSarif
