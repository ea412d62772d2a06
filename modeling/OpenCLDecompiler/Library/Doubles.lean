import Mathlib.Algebra.Order.Field.Power
import Mathlib.Data.Int.Log
import Mathlib.Data.Rat.Floor
import Mathlib.Tactic.FieldSimp
import Mathlib.Tactic.Linarith
import Mathlib.Tactic.NormNum
import Mathlib.Tactic.Positivity
import Mathlib.Tactic.Ring

/-!
# Rounding to double precision

A double has 53 binary digits and exponents from -1074 to 1023.  Values are rounded to
the closest one, a tie to the even one.
-/

namespace OpenCLDecompiler.Library

/-- The closest integer, the even one of two. -/
def closest (value : ℚ) : ℤ :=
  if 2 * (value - ⌊value⌋) < 1 ∨ 2 * (value - ⌊value⌋) = 1 ∧ ⌊value⌋ % 2 = 0 then ⌊value⌋
  else ⌊value⌋ + 1

@[simp]
theorem closest_intCast (value : ℤ) : closest value = value := by
  simp [closest]

theorem abs_closest_sub_le (value : ℚ) : |(closest value : ℚ) - value| ≤ 1 / 2 := by
  have below := Int.floor_le value
  have above := Int.lt_floor_add_one value
  rw [abs_le]
  unfold closest
  split
  · rename_i down
    have half : 2 * (value - ⌊value⌋) ≤ 1 := by
      obtain less | ⟨equal, -⟩ := down
      · exact less.le
      · exact equal.le
    constructor <;> linarith
  · rename_i up
    have half : 1 ≤ 2 * (value - ⌊value⌋) := not_lt.mp fun less => up (.inl less)
    push_cast
    constructor <;> linarith

/-- The unit in the last place of a value. -/
def lastPlace (value : ℚ) : ℚ := 2 ^ max (Int.log 2 |value| - 52) (-1074)

theorem lastPlace_pos (value : ℚ) : 0 < lastPlace value := zpow_pos two_pos _

/-- The value with the digits of a double, whatever its size. -/
def toDouble (value : ℚ) : ℚ := closest (value / lastPlace value) * lastPlace value

/-- The double closest to a value; `none` is an overflow. -/
def double (value : ℚ) : Option ℚ :=
  if |toDouble value| < 2 ^ 1024 then some (toDouble value) else none

theorem toDouble_eq_self {value : ℚ} (digits : ℤ) (whole : value = digits * lastPlace value) :
    toDouble value = value := by
  have digitsOf : value / lastPlace value = digits := by
    rw [div_eq_iff (lastPlace_pos value).ne']
    exact whole
  rw [toDouble, digitsOf, closest_intCast, ← whole]

theorem abs_toDouble_sub_le (value : ℚ) : |toDouble value - value| ≤ lastPlace value / 2 := by
  have positive := lastPlace_pos value
  have factor : toDouble value - value =
      (closest (value / lastPlace value) - value / lastPlace value) * lastPlace value := by
    rw [sub_mul, div_mul_cancel₀ _ positive.ne', toDouble]
  rw [factor, abs_mul, abs_of_pos positive]
  calc _ ≤ 1 / 2 * lastPlace value :=
        mul_le_mul_of_nonneg_right (abs_closest_sub_le _) positive.le
    _ = lastPlace value / 2 := by ring

/-- An integer below `2 ^ 53` is a double. -/
theorem toDouble_intCast {value : ℤ} (small : |value| < 2 ^ 53) : toDouble value = value := by
  have place : ∃ shift : ℕ, lastPlace (value : ℚ) = (2 ^ shift)⁻¹ := by
    have digits : Int.log 2 |(value : ℚ)| ≤ 52 := by
      by_cases zero : value = 0
      · simp [zero]
      · have positive : 0 < |(value : ℚ)| := abs_pos.mpr (Int.cast_ne_zero.mpr zero)
        have below : |(value : ℚ)| < (2 : ℕ) ^ (53 : ℤ) := by exact_mod_cast small
        have less := (Int.lt_zpow_iff_log_lt one_lt_two positive).mp below
        omega
    refine ⟨(-max (Int.log 2 |(value : ℚ)| - 52) (-1074)).toNat, ?_⟩
    rw [lastPlace, ← zpow_natCast, ← zpow_neg, Int.toNat_of_nonneg (by omega), neg_neg]
  obtain ⟨shift, place⟩ := place
  refine toDouble_eq_self (value * 2 ^ shift) ?_
  rw [place]
  push_cast
  rw [mul_assoc, mul_inv_cancel₀ (pow_ne_zero shift two_ne_zero), mul_one]

theorem double_of_eq {value : ℚ} (same : toDouble value = value) (small : |value| < 2 ^ 1024) :
    double value = some value := by
  rw [double, same, if_pos small]

theorem double_intCast {value : ℤ} (small : |value| < 2 ^ 53) :
    double value = some (value : ℚ) := by
  refine double_of_eq (toDouble_intCast small) ?_
  calc |(value : ℚ)| < 2 ^ 53 := by exact_mod_cast small
    _ < 2 ^ 1024 := pow_lt_pow_right₀ one_lt_two (by decide)

/-- A unit is small beside the value, or the least of all. -/
theorem lastPlace_le {value : ℚ} (nonzero : value ≠ 0) :
    lastPlace value ≤ |value| / 2 ^ 52 ∨ lastPlace value = (2 ^ 1074)⁻¹ := by
  unfold lastPlace
  obtain normal | subnormal := le_total (-1074) (Int.log 2 |value| - 52)
  · left
    rw [max_eq_left normal, zpow_sub₀ two_ne_zero]
    refine div_le_div_of_nonneg_right ?_ (by positivity)
    exact_mod_cast Int.zpow_log_le_self one_lt_two (abs_pos.mpr nonzero)
  · right
    rw [max_eq_right subnormal]
    norm_num

/-- A quotient of an integer below `2 ^ 53` is not rounded to an integer unless it is one. -/
theorem dvd_of_double {dividend divisor quotient : ℤ} (small : |dividend| < 2 ^ 53)
    (few : |(divisor : ℚ)| ≤ 2 ^ 1074) (nonzero : divisor ≠ 0)
    (rounded : double (dividend / divisor) = some (quotient : ℚ)) : divisor ∣ dividend := by
  by_contra inexact
  have isQuotient : toDouble (dividend / divisor) = quotient := by
    unfold double at rounded
    split at rounded
    · exact Option.some.inj rounded
    · cases rounded
  have dividend_ne : dividend ≠ 0 := by
    rintro rfl
    exact inexact (dvd_zero divisor)
  have size : 0 < |(divisor : ℚ)| := abs_pos.mpr (Int.cast_ne_zero.mpr nonzero)
  -- The quotient misses the value by at least one part in `divisor`.
  have gap : 1 ≤ |(quotient : ℚ) - dividend / divisor| * |(divisor : ℚ)| := by
    have whole : ((quotient * divisor - dividend : ℤ) : ℚ) =
        (quotient - dividend / divisor) * divisor := by
      push_cast
      rw [sub_mul, div_mul_cancel₀ _ (Int.cast_ne_zero.mpr nonzero)]
    rw [← abs_mul, ← whole, ← Int.cast_abs]
    have different : quotient * divisor - dividend ≠ 0 := fun same =>
      inexact ⟨quotient, by linarith⟩
    exact_mod_cast Int.one_le_abs different
  have error := abs_toDouble_sub_le ((dividend : ℚ) / divisor)
  rw [isQuotient] at error
  have scaled := mul_le_mul_of_nonneg_right error size.le
  obtain relative | least := lastPlace_le (div_ne_zero (Int.cast_ne_zero.mpr dividend_ne)
    (Int.cast_ne_zero.mpr nonzero) : (dividend : ℚ) / divisor ≠ 0)
  · rw [abs_div] at relative
    have bound : lastPlace ((dividend : ℚ) / divisor) * |(divisor : ℚ)| ≤
        |(dividend : ℚ)| / 2 ^ 52 := by
      calc _ ≤ |(dividend : ℚ)| / |(divisor : ℚ)| / 2 ^ 52 * |(divisor : ℚ)| :=
            mul_le_mul_of_nonneg_right relative size.le
        _ = |(dividend : ℚ)| / 2 ^ 52 := by field_simp
    have below : |(dividend : ℚ)| < 2 ^ 53 := by exact_mod_cast small
    linarith
  · rw [least, div_mul_eq_mul_div] at scaled
    have tiny : ((2 : ℚ) ^ 1074)⁻¹ * |(divisor : ℚ)| ≤ 1 :=
      (inv_mul_le_one₀ (pow_pos two_pos _)).mpr few
    have half : (1 : ℚ) ≤ 1 / 2 :=
      gap.trans (scaled.trans (div_le_div_of_nonneg_right tiny zero_le_two))
    norm_num at half

end OpenCLDecompiler.Library
