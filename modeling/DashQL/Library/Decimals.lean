import Mathlib

/-!
# Reading decimal numbers

A text of digits is read as a natural number, a text with a point as the number before
the point and a fraction behind it, and a leading minus sign negates it.  Zeros at the
end of a fraction do not count (`fractionValue_rdropWhile`).
-/

namespace DashQL.Decimals

open List

/-- The value of the digits behind a point. -/
def fractionValue (digits : List Char) : ℚ := Nat.ofDigitChars 10 digits 0 / 10 ^ digits.length

theorem fractionValue_concat_zero (digits : List Char) :
    fractionValue (digits ++ ['0']) = fractionValue digits := by
  have hvalue : Nat.ofDigitChars 10 (digits ++ ['0']) 0 = 10 * Nat.ofDigitChars 10 digits 0 := by
    rw [Nat.ofDigitChars_append, Nat.ofDigitChars_cons, Nat.ofDigitChars_nil]
    simp
  unfold fractionValue
  rw [hvalue, length_append, length_singleton, pow_succ]
  push_cast
  rw [mul_comm (10 : ℚ) (Nat.ofDigitChars 10 digits 0 : ℚ), mul_div_mul_right _ _ (by norm_num)]

/-- Trailing zeros do not count. -/
theorem fractionValue_rdropWhile (digits : List Char) :
    fractionValue (digits.rdropWhile (· = '0')) = fractionValue digits := by
  induction digits using List.reverseRecOn with
  | nil => rfl
  | append_singleton digits digit ih =>
    rw [rdropWhile_concat]
    split_ifs with hzero
    · rw [ih, of_decide_eq_true hzero, fractionValue_concat_zero]
    · rfl

/-- The digits of a number are a fraction of as many places. -/
theorem fractionValue_toDigits (n : ℕ) :
    fractionValue (Nat.toDigits 10 n) = n / 10 ^ (Nat.toDigits 10 n).length := by
  unfold fractionValue
  rw [Nat.ofDigitChars_ten_toDigits]

/-- A number without a sign. -/
def readUnsigned (text : List Char) : Option ℚ :=
  let whole := text.takeWhile Char.isDigit
  match text.dropWhile Char.isDigit with
  | [] => if whole = [] then none else some (Nat.ofDigitChars 10 whole 0)
  | point :: digits =>
    if whole ≠ [] ∧ point = '.' ∧ digits ≠ [] ∧ digits.all Char.isDigit then
      some (Nat.ofDigitChars 10 whole 0 + fractionValue digits)
    else none

def readDecimal (text : String) : Option ℚ :=
  if text.toList.head? = some '-' then (readUnsigned text.toList.tail).map (- ·)
  else readUnsigned text.toList

theorem isDigit_toDigits (n : ℕ) : ∀ digit ∈ Nat.toDigits 10 n, digit.isDigit = true :=
  fun _ hdigit => Nat.isDigit_of_mem_toDigits (by decide) (by decide) hdigit

theorem readUnsigned_whole (n : ℕ) : readUnsigned (Nat.toDigits 10 n) = some (n : ℚ) := by
  unfold readUnsigned
  rw [takeWhile_eq_self_iff.mpr (isDigit_toDigits n), dropWhile_eq_nil_iff.mpr (isDigit_toDigits n)]
  simp

theorem readUnsigned_point (n : ℕ) {digits : List Char} (hne : digits ≠ [])
    (hdigits : ∀ digit ∈ digits, digit.isDigit = true) :
    readUnsigned (Nat.toDigits 10 n ++ '.' :: digits) = some (n + fractionValue digits) := by
  unfold readUnsigned
  have hpoint : ¬ Char.isDigit '.' = true := by decide
  rw [takeWhile_append_of_pos (isDigit_toDigits n),
    dropWhile_append_of_pos (isDigit_toDigits n), takeWhile_cons_of_neg hpoint,
    dropWhile_cons_of_neg hpoint, append_nil]
  simp only [ne_eq, Nat.toDigits_ne_nil, not_false_eq_true, hne, all_eq_true.mpr hdigits,
    and_self, if_true, Nat.ofDigitChars_ten_toDigits]

/-- Digits do not start with a sign. -/
theorem readDecimal_unsigned (n : ℕ) (rest : List Char) :
    readDecimal (String.ofList (Nat.toDigits 10 n ++ rest)) =
      readUnsigned (Nat.toDigits 10 n ++ rest) := by
  have hsign : (Nat.toDigits 10 n ++ rest).head? ≠ some '-' := by
    rw [head?_append_of_ne_nil _ Nat.toDigits_ne_nil]
    intro heq
    have hdigit := isDigit_toDigits n _ (mem_of_head? heq)
    exact absurd hdigit (by decide)
  unfold readDecimal
  rw [String.toList_ofList, if_neg hsign]

theorem readDecimal_signed (text : List Char) :
    readDecimal (String.ofList ('-' :: text)) = (readUnsigned text).map (- ·) := by
  unfold readDecimal
  rw [String.toList_ofList, if_pos head?_cons, tail_cons]

end DashQL.Decimals
