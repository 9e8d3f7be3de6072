import Mathlib.Algebra.Group.Nat.Defs
import Mathlib.Data.Nat.Notation
import Mathlib.Logic.Basic

/-!
# `OnlineJudger.Lib.Decimal`: decimal numbers of a fixed width

`padded width n` writes a number with leading zeros, as `"%.*d"` does. Reading it back gives the
number (`ofDigitChars_padded`). It has exactly `width` digits for the numbers below
`10 ^ width` (`length_padded`). A number that is ten times larger has one digit more
(`padded_succ`).
-/

set_option autoImplicit false

namespace OnlineJudger.Lib

/-- A number with at least `width` digits. -/
def padded (width n : ℕ) : List Char := (Nat.toDigits 10 n).leftpad width '0'

/-- There are only digits in it, the leading zeros included. -/
theorem isDigit_of_mem_padded {width n : ℕ} {c : Char} (hc : c ∈ padded width n) :
    c.isDigit = true := by
  unfold padded List.leftpad at hc
  rcases List.mem_append.mp hc with hc | hc
  · rw [List.eq_of_mem_replicate hc]
    rfl
  · exact Nat.isDigit_of_mem_toDigits (by omega) (by omega) hc

/-- The number is read back: leading zeros do not count. -/
theorem ofDigitChars_padded (width n : ℕ) : Nat.ofDigitChars 10 (padded width n) 0 = n := by
  unfold padded List.leftpad
  rw [Nat.ofDigitChars_append, Nat.ofDigitChars_replicate_zero, Nat.mul_zero,
    Nat.ofDigitChars_ten_toDigits]

/-- A number below `10 ^ width` has exactly `width` digits, because its own digits are not more than
that. -/
theorem length_padded {width n : ℕ} (hwidth : 0 < width) (h : n < 10 ^ width) :
    (padded width n).length = width := by
  have hle := (Nat.length_toDigits_le_iff (b := 10) (by omega) hwidth).mpr h
  unfold padded
  rw [List.length_leftpad, Nat.max_eq_left hle]

/-- One digit more than the width. A number that does not fit has no leading zero, so a digit is put
behind those of the tenth part. -/
theorem padded_succ {width n : ℕ} (hwidth : 0 < width) (hge : 10 ^ width ≤ n) :
    padded width n = padded width (n / 10) ++ [Nat.digitChar (n % 10)] := by
  obtain ⟨k, rfl⟩ := Nat.exists_eq_succ_of_ne_zero (Nat.ne_of_gt hwidth)
  rw [Nat.pow_succ] at hge
  have hpos := Nat.pow_pos (n := k) (show 0 < 10 by omega)
  -- neither number is padded
  have hlong : ∀ m, 10 ^ k ≤ m → padded (k + 1) m = Nat.toDigits 10 m := by
    intro m hm
    have hlength : k + 1 ≤ (Nat.toDigits 10 m).length := by
      rcases Nat.eq_zero_or_pos k with rfl | hk
      · exact Nat.length_toDigits_pos
      · have hlt := (Nat.length_toDigits_le_iff (b := 10) (n := m) (by omega) hk).not.mpr
          (by omega)
        omega
    unfold padded List.leftpad
    rw [Nat.sub_eq_zero_of_le hlength]
    rfl
  rw [hlong n (by omega), hlong (n / 10) (by omega), Nat.toDigits_of_base_le (by omega) (by omega)]

/-- The last digit is the one that is not multiplied. -/
theorem ofDigitChars_concat (digits : List Char) (c : Char) :
    Nat.ofDigitChars 10 (digits ++ [c]) 0 =
      10 * Nat.ofDigitChars 10 digits 0 + (c.toNat - '0'.toNat) := by
  rw [Nat.ofDigitChars_append, Nat.ofDigitChars_cons, Nat.ofDigitChars_nil]

/-- A digit stands for a number below ten. -/
theorem toNat_of_isDigit {c : Char} (h : c.isDigit = true) : c.toNat - '0'.toNat < 10 := by
  have hrange := Char.isDigit_iff_toNat.mp h
  have hzero : '0'.toNat = 48 := rfl
  have hnine : '9'.toNat = 57 := rfl
  omega

/-- A number is smaller than the power of its width. By induction from the last digit. -/
theorem ofDigitChars_lt {digits : List Char} (h : ∀ c ∈ digits, c.isDigit = true) :
    Nat.ofDigitChars 10 digits 0 < 10 ^ digits.length := by
  induction digits with
  | nil => exact Nat.one_pos
  | cons c digits ih =>
    have hc := toNat_of_isDigit (h c (List.mem_cons_self ..))
    have hrest := ih fun d hd => h d (List.mem_cons_of_mem _ hd)
    rw [Nat.ofDigitChars_cons, Nat.mul_zero, Nat.zero_add, Nat.ofDigitChars_eq_ofDigitChars_zero,
      List.length_cons, Nat.pow_succ]
    calc 10 ^ digits.length * (c.toNat - '0'.toNat) + Nat.ofDigitChars 10 digits 0
        < 10 ^ digits.length * (c.toNat - '0'.toNat) + 10 ^ digits.length :=
          Nat.add_lt_add_left hrest _
      _ = 10 ^ digits.length * (c.toNat - '0'.toNat + 1) := rfl
      _ ≤ 10 ^ digits.length * 10 := Nat.mul_le_mul_left _ hc

end OnlineJudger.Lib
