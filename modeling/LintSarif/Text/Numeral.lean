/-!
# Decimal numerals

Natural numbers and integers in decimal digits. `value_digits` says that the digits written for a
number have that number as their value.
-/

namespace LintSarif.Text.Numeral

/-- `digits n` are the decimal digits of `n`, without leading zeros. -/
def digits (n : Nat) : List Char :=
  Nat.toDigits 10 n

/-- `value cs` is the number that the decimal digits `cs` stand for; leading zeros add nothing. -/
def value (cs : List Char) : Nat :=
  Nat.ofDigitChars 10 cs 0

/-- `ofInt n` is `n` in decimal, with a minus sign in front of a negative number. -/
def ofInt : Int → List Char
  | .ofNat n => digits n
  | .negSucc n => '-' :: digits (n + 1)

/-- Digits are read back as the number they were written for. -/
@[simp]
theorem value_digits (n : Nat) : value (digits n) = n :=
  Nat.ofDigitChars_toDigits (by decide) (by decide)

example : value ['0', '0', '1', '2'] = 12 := by decide

example : ofInt (-10) = ['-', '1', '0'] := by decide

end LintSarif.Text.Numeral
