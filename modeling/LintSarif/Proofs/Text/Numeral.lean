import LintSarif.Text.Numeral

/-!
# Written numbers

The numeral of a number is a run of digits without a superfluous zero. A number that is not negative
has no sign, so `ofInt` writes it as such a run too.
-/

namespace LintSarif.Text.Numeral

theorem isDigit_of_mem_digits {n : Nat} {c : Char} (h : c ∈ digits n) : c.isDigit = true :=
  Nat.isDigit_of_mem_toDigits (by decide) (by decide) h

/-- The first digit of a positive number is not zero. -/
theorem exists_digits_cons {n : Nat} (h : 0 < n) :
    ∃ c ds, digits n = c :: ds ∧ c ≠ '0' := by
  induction n using Nat.strongRecOn with
  | ind n ih =>
      rcases Nat.lt_or_ge n 10 with hlt | hle
      · refine ⟨n.digitChar, [], Nat.toDigits_of_lt_base hlt, fun heq => ?_⟩
        rw [Nat.digitChar_eq_zero] at heq
        omega
      · obtain ⟨c, ds, heq, hc⟩ := ih (n / 10) (by omega) (by omega)
        refine ⟨c, ds ++ [(n % 10).digitChar], ?_, hc⟩
        rw [digits, Nat.toDigits_of_base_le (by decide) hle]
        rw [digits] at heq
        rw [heq, List.cons_append]

/-- A number that is not negative is written as a run of digits with its value. -/
theorem ofInt_of_nonneg {n : Int} (h : 0 ≤ n) :
    ofInt n ≠ [] ∧ (∀ c ∈ ofInt n, c.isDigit = true) ∧ (value (ofInt n) : Int) = n := by
  obtain ⟨n, rfl⟩ := Int.eq_ofNat_of_zero_le h
  refine ⟨Nat.toDigits_ne_nil, fun _ => isDigit_of_mem_digits, ?_⟩
  show ((value (digits n) : Nat) : Int) = n
  rw [value_digits]

/-- An integer is written in digits, perhaps behind a minus sign. -/
theorem mem_ofInt {n : Int} {c : Char} (h : c ∈ ofInt n) : c = '-' ∨ c.isDigit = true := by
  cases n with
  | ofNat n => exact .inr (isDigit_of_mem_digits h)
  | negSucc n => exact (List.mem_cons.1 h).imp_right isDigit_of_mem_digits

/-- An integer ends with a digit. -/
theorem exists_getLast?_ofInt (n : Int) : ∃ c, (ofInt n).getLast? = some c ∧ c.isDigit = true := by
  have hdigits : ∀ k, ∃ c, (digits k).getLast? = some c ∧ c.isDigit = true := by
    intro k
    have hne : digits k ≠ [] := Nat.toDigits_ne_nil
    exact ⟨_, List.getLast?_eq_some_getLast hne, isDigit_of_mem_digits (List.getLast_mem hne)⟩
  cases n with
  | ofNat n => exact hdigits n
  | negSucc n =>
      obtain ⟨c, hlast, hc⟩ := hdigits (n + 1)
      refine ⟨c, ?_, hc⟩
      rw [ofInt, List.getLast?_cons, hlast]
      rfl

end LintSarif.Text.Numeral
