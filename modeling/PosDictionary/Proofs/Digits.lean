import Mathlib.Data.List.Basic

/-!
# Decimal digits

A number is written with its decimal digits, the first of which is not zero unless the number is:
`head?_toDigits_ne`. From its digits, the number can be told even if zeros are put in front of them,
`ofDigitChars_zeros_append`.
-/

namespace PosDictionary.Digits

variable {n : Nat}

/-- The digits of a number are decimal digits. -/
theorem isDigit_of_mem_toDigits {c : Char} (hc : c ∈ Nat.toDigits 10 n) : c.isDigit :=
  Nat.isDigit_of_mem_toDigits (by decide) (by decide) hc

/-- The digits of a number that is not zero do not begin with zero. -/
theorem head?_toDigits_ne (h : 0 < n) : (Nat.toDigits 10 n).head? ≠ some '0' := by
  induction n using Nat.strongRecOn with
  | ind n ih =>
    rw [Nat.toDigits_eq_if (by decide)]
    split
    next hlt => simpa using Nat.ne_of_gt h
    next hge =>
      rw [List.head?_append_of_ne_nil _ Nat.toDigits_ne_nil]
      exact ih (n / 10) (by omega) (by omega)

/-- A number that is written with several digits is not zero. -/
theorem pos_of_length_toDigits (h : (Nat.toDigits 10 n).length ≠ 1) : 0 < n := by
  rcases Nat.eq_zero_or_pos n with rfl | hpos
  · exact absurd (congrArg List.length (Nat.toDigits_zero 10)) h
  · exact hpos

/-- Zeros in front of digits do not change their number. -/
theorem ofDigitChars_zeros_append (zeros : Nat) (digits : List Char) :
    Nat.ofDigitChars 10 (List.replicate zeros '0' ++ digits) 0 = Nat.ofDigitChars 10 digits 0 := by
  rw [Nat.ofDigitChars_append, Nat.ofDigitChars_replicate_zero, Nat.mul_zero]

/-- More digits do not make a number less. -/
theorem le_ofDigitChars (digits : List Char) (n : Nat) : n ≤ Nat.ofDigitChars 10 digits n := by
  rw [Nat.ofDigitChars_eq_ofDigitChars_zero]
  have hpos : 0 < 10 ^ digits.length := Nat.pow_pos (by decide)
  exact Nat.le_add_right_of_le (Nat.le_mul_of_pos_left n hpos)

end PosDictionary.Digits
