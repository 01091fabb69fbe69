import LintSarif.Text.LineBreak

/-!
# Pieces between line breaks

The pieces of a text are stretches without a line break, and any stretches without line breaks are
the pieces of the text that has a line feed between any two of them (`pieces_intercalate`).
-/

namespace LintSarif.Text

/-- A digit is no line break. -/
theorem isLineBreak_of_isDigit {c : Char} (h : c.isDigit = true) : isLineBreak c = false := by
  have hnone : lineBreaks.any Char.isDigit = false := by
    decide
  refine Bool.eq_false_iff.2 fun hbreak => ?_
  exact List.any_eq_false.1 hnone c (List.contains_iff_mem.1 hbreak) h

/-- A text without a line break is its own only piece. -/
theorem pieces_of_unbroken {cs : List Char} (h : ∀ c ∈ cs, isLineBreak c = false) :
    pieces cs = [cs] :=
  List.splitOnP_eq_singleton h

/-- What stands between two cuts belongs to the text and holds no place to cut at. -/
theorem mem_of_mem_splitOnP {p : Char → Bool} {cs piece : List Char} (h : piece ∈ cs.splitOnP p) :
    ∀ c ∈ piece, c ∈ cs ∧ p c = false := by
  induction cs generalizing piece with
  | nil =>
      rw [List.splitOnP_nil, List.mem_singleton] at h
      simp [h]
  | cons c cs ih =>
      rw [List.splitOnP_cons_eq_if_modifyHead] at h
      obtain ⟨first, others, hsplit⟩ := List.exists_cons_of_ne_nil (List.splitOnP_ne_nil p cs)
      rw [hsplit] at h ih
      have hmore : ∀ piece ∈ first :: others, ∀ x ∈ piece, x ∈ c :: cs ∧ p x = false :=
        fun piece hpiece x hx => ⟨List.mem_cons_of_mem c (ih hpiece x hx).1, (ih hpiece x hx).2⟩
      by_cases hc : p c = true
      · rw [if_pos hc] at h
        rcases List.mem_cons.1 h with rfl | h
        · exact fun _ hmem => absurd hmem List.not_mem_nil
        · exact hmore piece h
      · rw [if_neg hc, List.modifyHead_cons] at h
        rcases List.mem_cons.1 h with rfl | h
        · have hhead : c ∈ c :: cs ∧ p c = false := ⟨List.mem_cons_self, Bool.of_not_eq_true hc⟩
          exact List.forall_mem_cons.2 ⟨hhead, hmore first List.mem_cons_self⟩
        · exact hmore piece (List.mem_cons_of_mem first h)

/-- No piece holds a line break. -/
theorem unbroken_of_mem_pieces {cs piece : List Char} (h : piece ∈ pieces cs) :
    ∀ c ∈ piece, isLineBreak c = false :=
  fun c hc => (mem_of_mem_splitOnP h c hc).2

/-- Lines without line breaks are the pieces of the text that has them one after the other, with a
line feed between two. -/
theorem pieces_intercalate {lines : List (List Char)} (hne : lines ≠ [])
    (h : ∀ line ∈ lines, ∀ c ∈ line, isLineBreak c = false) :
    pieces (['\n'].intercalate lines) = lines := by
  induction lines with
  | nil => contradiction
  | cons line lines ih =>
      have hline := pieces_of_unbroken (h line List.mem_cons_self)
      cases lines with
      | nil => rw [List.intercalate_singleton, hline]
      | cons next lines =>
          rw [List.intercalate_cons_cons, List.append_assoc, List.singleton_append,
            pieces_append_cons _ _ (by decide), hline,
            ih (List.cons_ne_nil next lines) (List.forall_mem_cons.1 h).2]
          rfl

end LintSarif.Text
