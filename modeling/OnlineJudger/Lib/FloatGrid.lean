import Mathlib.Algebra.Order.Round
import Mathlib.Data.Int.Log
import Mathlib.Data.Rat.Floor
import Mathlib.Tactic.Linarith
import Mathlib.Tactic.NormNum
import Mathlib.Tactic.Positivity
import Mathlib.Tactic.Ring

/-!
# `OnlineJudger.Lib.FloatGrid`: rounding to a binary floating-point format

A format of precision `p` has the numbers `m * 2 ^ e` with `|m| < 2 ^ p` (`IsFloat`). The range
of the exponent is not bounded. `nearest p q` rounds a number `0 ≤ q` to the format, ties to the
even mantissa.

* `isFloat_nearest`: the result is a number of the format.
* `abs_sub_nearest_le`: no number of the format is nearer to `q`.
* `nearest_of_isFloat`, `nearest_natCast`: numbers of the format, and so all naturals up to
  `2 ^ p`, are left alone.
* `nearest_nonneg`, `nearest_le_one`, `nearest_lt_one`: the result stays on `q`'s side of 0
  and 1.

`quotient p a b` is the division of two naturals that are converted to the format first.
-/

set_option autoImplicit false

namespace OnlineJudger.Lib

/-- The nearest integer, the even one in the middle between two. -/
def roundEven (x : ℚ) : ℤ :=
  if Int.fract x = 1 / 2 ∧ ⌊x⌋ % 2 = 0 then ⌊x⌋ else round x

/-- No integer is nearer to `x` than `roundEven x`. In the middle between two, both are as near. -/
theorem abs_sub_roundEven_le (x : ℚ) (z : ℤ) : |x - roundEven x| ≤ |x - z| := by
  unfold roundEven
  split
  · -- both neighbours are at the distance 1 / 2
    rename_i htie
    have hround := round_le x z
    rw [abs_sub_round_eq_min, htie.1] at hround
    rw [Int.self_sub_floor, htie.1]
    norm_num at hround ⊢
    exact hround
  · exact round_le x z

/-- The numbers of a format of precision `p`. -/
def IsFloat (p : ℕ) (y : ℚ) : Prop := ∃ m e : ℤ, |m| < 2 ^ p ∧ y = m * 2 ^ e

/-- The distance between neighbours of the format at `q`. -/
def ulp (p : ℕ) (q : ℚ) : ℚ := 2 ^ (Int.log 2 q + 1 - p)

/-- `q` rounded to the format, ties to the even mantissa. -/
def nearest (p : ℕ) (q : ℚ) : ℚ := roundEven (q / ulp p q) * ulp p q

/-- Neighbours of the format are apart. -/
theorem ulp_pos (p : ℕ) (q : ℚ) : 0 < ulp p q := zpow_pos (by norm_num) _

/-- `2 ^ k` is the power of two at or below `q`. It is a multiple of the distance. -/
theorem two_zpow_log (p : ℕ) (q : ℚ) :
    (2 : ℚ) ^ Int.log 2 q = 2 ^ ((p : ℤ) - 1) * ulp p q := by
  unfold ulp
  rw [← zpow_add₀ (by norm_num)]
  congr 1
  omega

/-- No multiple of the distance is nearer to `q` than `nearest p q`. -/
theorem abs_sub_nearest_le_mul (p : ℕ) (q : ℚ) (z : ℤ) :
    |q - nearest p q| ≤ |q - z * ulp p q| := by
  have hpos := ulp_pos p q
  have hscale : ∀ n : ℤ, |q - n * ulp p q| = |q / ulp p q - n| * ulp p q := by
    intro n
    rw [← abs_of_pos hpos, ← abs_mul, abs_of_pos hpos, sub_mul, div_mul_cancel₀ q hpos.ne']
  unfold nearest
  rw [hscale, hscale]
  exact mul_le_mul_of_nonneg_right (abs_sub_roundEven_le _ z) hpos.le

variable {p : ℕ}

/-- An integer power of two is a natural one where the exponent is not negative. -/
theorem two_zpow_eq_intCast {e : ℤ} (he : 0 ≤ e) : (2 : ℚ) ^ e = ((2 ^ e.toNat : ℤ) : ℚ) := by
  conv_lhs => rw [← Int.toNat_of_nonneg he]
  rw [zpow_natCast]
  norm_cast

/-- Zero is left alone. -/
theorem nearest_zero : nearest p 0 = 0 := by
  unfold nearest roundEven
  simp

/-- No number of the format is nearer to `q` than `nearest p q`. A number that is no multiple of the
distance at `q` is smaller than the power of two below `q`, which is a multiple of it. -/
theorem abs_sub_nearest_le (hp : 0 < p) {q y : ℚ} (hq : 0 ≤ q) (hy : IsFloat p y) :
    |q - nearest p q| ≤ |q - y| := by
  rcases hq.eq_or_lt with rfl | hq
  · rw [nearest_zero, sub_zero, abs_zero]
    exact abs_nonneg _
  obtain ⟨m, e, hm, rfl⟩ := hy
  have hlow : (2 : ℚ) ^ Int.log 2 q ≤ q := Int.zpow_log_le_self Nat.one_lt_two hq
  by_cases he : Int.log 2 q + 1 - p ≤ e
  · -- `y` is a multiple of the distance
    have hmul : (m : ℚ) * 2 ^ e
        = ((m * 2 ^ (e - (Int.log 2 q + 1 - p)).toNat : ℤ) : ℚ) * ulp p q := by
      rw [Int.cast_mul, ← two_zpow_eq_intCast (by omega), mul_assoc]
      unfold ulp
      rw [← zpow_add₀ (by norm_num)]
      congr 2
      omega
    rw [hmul]
    exact abs_sub_nearest_le_mul p q _
  · -- `y` lies below the power of two at `q`, which is a multiple of the distance
    have hbelow : (m : ℚ) * 2 ^ e ≤ 2 ^ Int.log 2 q := by
      have hcast : (m : ℚ) ≤ 2 ^ (p : ℤ) := by
        rw [zpow_natCast]
        exact_mod_cast ((le_abs_self m).trans_lt hm).le
      calc (m : ℚ) * 2 ^ e ≤ 2 ^ (p : ℤ) * 2 ^ e := by
            exact mul_le_mul_of_nonneg_right hcast (zpow_nonneg (by norm_num) _)
        _ = 2 ^ ((p : ℤ) + e) := (zpow_add₀ (by norm_num) _ _).symm
        _ ≤ 2 ^ Int.log 2 q := zpow_le_zpow_right₀ (by norm_num) (by omega)
    have hnear := abs_sub_nearest_le_mul p q (2 ^ ((p : ℤ) - 1).toNat)
    rw [← two_zpow_eq_intCast (by omega), ← two_zpow_log] at hnear
    rw [abs_of_nonneg (by linarith : 0 ≤ q - 2 ^ Int.log 2 q)] at hnear
    rw [abs_of_nonneg (by linarith : 0 ≤ q - (m : ℚ) * 2 ^ e)]
    linarith

/-- The rounded number is one of the format: a mantissa that is rounded up to `2 ^ p` is the
next power of two. -/
theorem isFloat_nearest (hp : 0 < p) {q : ℚ} (hq : 0 ≤ q) : IsFloat p (nearest p q) := by
  rcases hq.eq_or_lt with rfl | hq
  · exact ⟨0, 0, by simp, by simp [nearest_zero]⟩
  have hpos := ulp_pos p q
  -- the quotient by the last place lies between zero and `2 ^ p`
  have hhigh : q / ulp p q ≤ ((2 ^ p : ℤ) : ℚ) := by
    rw [div_le_iff₀ hpos]
    unfold ulp
    push_cast
    rw [← zpow_natCast, ← zpow_add₀ (by norm_num), show (p : ℤ) + (Int.log 2 q + 1 - p)
      = Int.log 2 q + 1 by omega]
    exact (Int.lt_zpow_succ_log_self Nat.one_lt_two q).le
  have hlow : 0 ≤ q / ulp p q := (div_pos hq hpos).le
  -- so does its rounding, since both ends are integers
  have hle : roundEven (q / ulp p q) ≤ 2 ^ p := by
    by_contra hgt
    have hgt : ((2 ^ p : ℤ) : ℚ) < roundEven (q / ulp p q) := by exact_mod_cast not_le.mp hgt
    have hnear := abs_sub_roundEven_le (q / ulp p q) (2 ^ p)
    rw [abs_of_nonpos (by linarith), abs_of_nonpos (by linarith)] at hnear
    linarith
  have hnonneg : 0 ≤ roundEven (q / ulp p q) := by
    by_contra hneg
    have hneg : (roundEven (q / ulp p q) : ℚ) < 0 := by exact_mod_cast not_le.mp hneg
    have hnear := abs_sub_roundEven_le (q / ulp p q) 0
    rw [Int.cast_zero, sub_zero, abs_of_nonneg hlow, abs_of_nonneg (by linarith)] at hnear
    linarith
  -- at the upper end the result is the power of two above, a single bit
  rcases hle.lt_or_eq with hlt | heq
  · exact ⟨roundEven (q / ulp p q), Int.log 2 q + 1 - p, by rwa [abs_of_nonneg hnonneg], rfl⟩
  · refine ⟨1, Int.log 2 q + 1, ?_, ?_⟩
    · rw [abs_one]
      exact one_lt_pow₀ (by norm_num) hp.ne'
    · unfold nearest
      rw [heq, Int.cast_one, one_mul]
      unfold ulp
      push_cast
      rw [← zpow_natCast, ← zpow_add₀ (by norm_num)]
      congr 1
      omega

/-- A number of the format is left alone. -/
theorem nearest_of_isFloat (hp : 0 < p) {q : ℚ} (hq : 0 ≤ q) (h : IsFloat p q) :
    nearest p q = q := by
  have hnear := abs_sub_nearest_le hp hq h
  rw [sub_self, abs_zero] at hnear
  exact (sub_eq_zero.mp (abs_eq_zero.mp (le_antisymm hnear (abs_nonneg _)))).symm

/-- The naturals up to `2 ^ p` are numbers of the format. -/
theorem isFloat_natCast (hp : 0 < p) {n : ℕ} (hn : n ≤ 2 ^ p) : IsFloat p n := by
  rcases hn.lt_or_eq with hlt | rfl
  · refine ⟨n, 0, ?_, by simp⟩
    rw [abs_of_nonneg (by omega)]
    exact_mod_cast hlt
  · refine ⟨1, p, ?_, by simp⟩
    rw [abs_one]
    exact one_lt_pow₀ (by norm_num) hp.ne'

/-- The naturals up to `2 ^ p` are left alone. -/
theorem nearest_natCast (hp : 0 < p) {n : ℕ} (hn : n ≤ 2 ^ p) : nearest p n = n :=
  nearest_of_isFloat hp (Nat.cast_nonneg n) (isFloat_natCast hp hn)

/-- A number that is not negative is not rounded to a negative one. -/
theorem nearest_nonneg (hp : 0 < p) {q : ℚ} (hq : 0 ≤ q) : 0 ≤ nearest p q := by
  have hnear := abs_sub_nearest_le hp hq (isFloat_natCast hp (Nat.zero_le _))
  rw [Nat.cast_zero, sub_zero, abs_of_nonneg hq] at hnear
  linarith [le_abs_self (q - nearest p q)]

/-- A number up to 1 is not rounded above 1, because 1 is a number of the format. -/
theorem nearest_le_one (hp : 0 < p) {q : ℚ} (hq : 0 ≤ q) (hle : q ≤ 1) : nearest p q ≤ 1 := by
  have hnear := abs_sub_nearest_le hp hq (isFloat_natCast hp Nat.one_le_two_pow)
  rw [Nat.cast_one, abs_sub_comm q 1, abs_of_nonneg (sub_nonneg.mpr hle)] at hnear
  linarith [neg_abs_le (q - nearest p q)]

/-- A number that is below 1 by `2 ^ (-p)` or more is not rounded to 1: one minus this is of the
format. -/
theorem nearest_lt_one (hp : 0 < p) {q : ℚ} (hq : 0 ≤ q) (hle : q ≤ 1 - 2 ^ (-p : ℤ)) :
    nearest p q < 1 := by
  have hpos : (0 : ℚ) < 2 ^ (-p : ℤ) := zpow_pos (by norm_num) _
  have hfloat : IsFloat p (1 - 2 ^ (-p : ℤ)) := by
    refine ⟨2 ^ p - 1, -p, ?_, ?_⟩
    · have hone : (1 : ℤ) ≤ 2 ^ p := one_le_pow₀ (by norm_num)
      rw [abs_of_nonneg (by omega)]
      omega
    · push_cast
      rw [sub_mul, one_mul, ← zpow_natCast, ← zpow_add₀ (by norm_num), add_neg_cancel, zpow_zero]
  have hnear := abs_sub_nearest_le hp hq hfloat
  rw [abs_sub_comm q (1 - _), abs_of_nonneg (sub_nonneg.mpr hle)] at hnear
  linarith [neg_abs_le (q - nearest p q)]

/-- Rounding keeps the order: `nearest p q` is at most as far from `q` as `nearest p r` is, and the
other way round, so the middle between them does not lie below `q` and above `r`. -/
theorem nearest_mono (hp : 0 < p) {q r : ℚ} (hq : 0 ≤ q) (hle : q ≤ r) :
    nearest p q ≤ nearest p r := by
  rcases hle.eq_or_lt with rfl | hlt
  · exact le_rfl
  have hr := hq.trans hle
  have hleft := abs_sub_nearest_le hp hq (isFloat_nearest hp hr)
  have hright := abs_sub_nearest_le hp hr (isFloat_nearest hp hq)
  by_contra hgt
  have hgt := not_le.mp hgt
  have hmiddle : nearest p q + nearest p r ≤ 2 * q := by nlinarith only [sq_le_sq.mpr hleft, hgt]
  have hmiddle' : 2 * r ≤ nearest p q + nearest p r := by nlinarith only [sq_le_sq.mpr hright, hgt]
  linarith

/-! ### The quotient of two naturals -/

/-- Both operands are converted, and their quotient is rounded. -/
def quotient (p a b : ℕ) : ℚ := nearest p (nearest p a / nearest p b)

/-- A quotient is a number of the format. -/
theorem isFloat_quotient (hp : 0 < p) (a b : ℕ) : IsFloat p (quotient p a b) :=
  isFloat_nearest hp (div_nonneg (nearest_nonneg hp (Nat.cast_nonneg a))
    (nearest_nonneg hp (Nat.cast_nonneg b)))

/-- Operands up to `2 ^ p` are converted exactly: only the quotient is rounded. -/
theorem quotient_eq_nearest (hp : 0 < p) {a b : ℕ} (ha : a ≤ 2 ^ p) (hb : b ≤ 2 ^ p) :
    quotient p a b = nearest p (a / b) := by
  unfold quotient
  rw [nearest_natCast hp ha, nearest_natCast hp hb]

/-- A natural other than zero is not rounded to zero: 1 would be nearer. -/
theorem nearest_pos (hp : 0 < p) {n : ℕ} (hn : 0 < n) : 0 < nearest p n := by
  have hmono := nearest_mono hp (q := 1) (by norm_num) (Nat.one_le_cast.mpr hn)
  have hone := nearest_natCast hp (Nat.one_le_two_pow (n := p))
  rw [Nat.cast_one] at hone
  linarith

/-- A quotient of a number by one that is not smaller lies between 0 and 1. -/
theorem quotient_mem (hp : 0 < p) {a b : ℕ} (h : a ≤ b) :
    0 ≤ quotient p a b ∧ quotient p a b ≤ 1 := by
  have ha := nearest_nonneg hp (Nat.cast_nonneg a : (0 : ℚ) ≤ a)
  have hmono := nearest_mono hp (Nat.cast_nonneg a : (0 : ℚ) ≤ a) (Nat.cast_le.mpr h)
  have hnonneg := div_nonneg ha (ha.trans hmono)
  exact ⟨nearest_nonneg hp hnonneg,
    nearest_le_one hp hnonneg (div_le_one_of_le₀ hmono (ha.trans hmono))⟩

/-- A number other than zero divided by itself. -/
theorem quotient_self (hp : 0 < p) {n : ℕ} (hn : 0 < n) : quotient p n n = 1 := by
  have hone := nearest_natCast hp (Nat.one_le_two_pow (n := p))
  rw [Nat.cast_one] at hone
  unfold quotient
  rw [div_self (nearest_pos hp hn).ne', hone]

/-- A proper fraction of operands up to `2 ^ p` is not rounded to 1. -/
theorem quotient_lt_one (hp : 0 < p) {a b : ℕ} (h : a < b) (hb : b ≤ 2 ^ p) :
    quotient p a b < 1 := by
  have hpos : (0 : ℚ) < b := Nat.cast_pos.mpr (by omega)
  rw [quotient_eq_nearest hp (by omega) hb]
  refine nearest_lt_one hp (div_nonneg (Nat.cast_nonneg a) hpos.le) ?_
  rw [div_le_iff₀ hpos, sub_mul, one_mul, zpow_neg, zpow_natCast]
  have hone : ((2 : ℚ) ^ p)⁻¹ * b ≤ 1 := by
    rw [inv_mul_le_iff₀ (by positivity), mul_one]
    exact_mod_cast hb
  have hsucc : (a : ℚ) + 1 ≤ b := by exact_mod_cast h
  linarith

end OnlineJudger.Lib
