import Mathlib.Data.Int.Log
import Mathlib.Data.Rat.Floor
import Mathlib.Tactic.Linarith
import Mathlib.Tactic.NormNum
import Mathlib.Tactic.Ring
import ComputedField.Decimal.Basic

/-!
# The number that a decimal denotes

`Decimal.toRat` reads a decimal as a rational number. Padding and stripping zeros keep that number,
and the digits of the unscaled integer and the scale together say where its first digit stands
(`log_toRat`).
-/

set_option autoImplicit false

namespace ComputedField

/-! ## Powers of ten -/

theorem ten_zpow_pos (k : ℤ) : (0 : ℚ) < 10 ^ k := zpow_pos (by norm_num) k

theorem ten_zpow_add (j k : ℤ) : (10 : ℚ) ^ (j + k) = 10 ^ j * 10 ^ k :=
  zpow_add₀ (by norm_num) j k

/-- A power of ten whose exponent is not negative is an integer. -/
theorem ten_zpow_toNat {k : ℤ} (h : 0 ≤ k) : (10 : ℚ) ^ k = ((10 ^ k.toNat : ℤ) : ℚ) := by
  obtain ⟨n, rfl⟩ := Int.eq_ofNat_of_zero_le h
  simp

namespace Decimal

/-- The number that `x` denotes. -/
def toRat (x : Decimal) : ℚ := x.unscaled * 10 ^ (-x.scale)

variable (x : Decimal)

/-- The number, moved to a scale. -/
theorem toRat_mul_zpow (k : ℤ) : x.toRat * 10 ^ k = x.unscaled * 10 ^ (k - x.scale) := by
  rw [toRat, mul_assoc, ← ten_zpow_add, neg_add_eq_sub]

@[simp] theorem toRat_ofInt (n : ℤ) : (ofInt n).toRat = n := by simp [toRat, ofInt]

@[simp] theorem toRat_zero : zero.toRat = 0 := by simp [zero]

@[simp] theorem toRat_one : one.toRat = 1 := by simp [one]

@[simp] theorem toRat_eq_zero : x.toRat = 0 ↔ x.unscaled = 0 := by
  simp [toRat, (ten_zpow_pos _).ne']

theorem isZero_iff : x.isZero = true ↔ x.toRat = 0 := by simp [isZero]

/-- At one scale the number determines the unscaled integer. -/
theorem unscaled_eq_of_toRat {x y : Decimal} (hscale : x.scale = y.scale)
    (h : x.toRat = y.toRat) : x.unscaled = y.unscaled := by
  rw [toRat, toRat, hscale] at h
  exact_mod_cast mul_right_cancel₀ (ten_zpow_pos _).ne' h

/-- A decimal that is padded counts its number in units of the new scale. -/
theorem intCast_unscaledAt {scale : ℤ} (h : x.scale ≤ scale) :
    (x.unscaledAt scale : ℚ) = x.toRat * 10 ^ scale := by
  rw [toRat_mul_zpow, ten_zpow_toNat (sub_nonneg.mpr h), unscaledAt, Int.cast_mul]

/-! ## Trailing zeros -/

theorem stripZeros_not_dvd {n : ℕ} (h : n ≠ 0) : ¬ 10 ∣ (stripZeros n).1 := by
  fun_induction stripZeros n with
  | case1 n hn m k hs ih =>
    rw [hs] at ih
    exact ih (by omega)
  | case2 n hn =>
    intro hdvd
    exact hn ⟨by omega, by omega⟩

theorem normalized_eq (hx : x.unscaled ≠ 0) :
    x.normalized = ⟨x.unscaled.sign * (stripZeros x.unscaled.natAbs).1,
      x.scale - (stripZeros x.unscaled.natAbs).2⟩ := by
  simp [normalized, isZero, hx]

/-- Stripping the trailing zeros keeps the number. -/
theorem toRat_normalized : x.normalized.toRat = x.toRat := by
  by_cases hx : x.unscaled = 0
  · rw [normalized, if_pos (by simpa [isZero] using hx), toRat_zero, eq_comm, toRat_eq_zero, hx]
  · have hstrip : x.unscaled = x.unscaled.sign * (stripZeros x.unscaled.natAbs).1 *
        10 ^ (stripZeros x.unscaled.natAbs).2 := by
      conv_lhs => rw [← Int.sign_mul_natAbs x.unscaled, ← stripZeros_eq x.unscaled.natAbs]
      push_cast
      ring
    rw [normalized_eq x hx, toRat, toRat]
    conv_rhs => rw [hstrip]
    rw [Int.cast_mul _ (10 ^ _), Int.cast_pow, Int.cast_ofNat, ← zpow_natCast, mul_assoc,
      ← ten_zpow_add]
    congr 2
    ring

theorem normalized_scale_le (hx : x.unscaled ≠ 0) : x.normalized.scale ≤ x.scale := by
  rw [normalized_eq x hx]
  exact Int.sub_le_self _ (Int.natCast_nonneg _)

/-- No zero is left at the end. -/
theorem not_dvd_normalized (hx : x.unscaled ≠ 0) : ¬ (10 : ℤ) ∣ x.normalized.unscaled := by
  rw [normalized_eq x hx]
  intro h
  have hsign : x.unscaled.sign.natAbs = 1 := Int.natAbs_sign_of_ne_zero hx
  have := Int.natAbs_dvd_natAbs.mpr h
  rw [Int.natAbs_mul, hsign, one_mul] at this
  exact stripZeros_not_dvd (Int.natAbs_ne_zero.mpr hx) this

/-! ## Digits -/

/-- The digits of a decimal enclose its unscaled integer between two powers of ten. -/
theorem natAbs_lt_pow_digits : x.unscaled.natAbs < 10 ^ x.digits := lt_pow_digitCount _

theorem pow_digits_le_natAbs (hx : x.unscaled ≠ 0) : 10 ^ (x.digits - 1) ≤ x.unscaled.natAbs :=
  pow_digitCount_le (Int.natAbs_pos.mpr hx)

theorem digitCount_zero : digitCount 0 = 1 := by simp [digitCount, digitsFrom]

theorem digits_pos : 0 < x.digits := digitCount_pos _

theorem digits_le_iff {k : ℕ} (hk : 0 < k) : x.digits ≤ k ↔ x.unscaled.natAbs < 10 ^ k := by
  constructor
  · intro h
    exact x.natAbs_lt_pow_digits.trans_le (Nat.pow_le_pow_right (by decide) h)
  · intro h
    by_cases hx : x.unscaled = 0
    · rw [digits, hx, Int.natAbs_zero, digitCount_zero]
      exact hk
    · have hlt := (x.pow_digits_le_natAbs hx).trans_lt h
      have := (Nat.pow_lt_pow_iff_right (by decide)).mp hlt
      omega

theorem abs_toRat : |x.toRat| = x.unscaled.natAbs * 10 ^ (-x.scale) := by
  rw [toRat, abs_mul, abs_of_pos (ten_zpow_pos _), ← Int.cast_abs, Int.abs_eq_natAbs,
    Int.cast_natCast]

/-- Where the first digit of a number stands. -/
theorem log_eq_of_le_of_lt {r : ℚ} {k : ℤ} (hle : 10 ^ k ≤ r) (hlt : r < 10 ^ (k + 1)) :
    Int.log 10 r = k := by
  have hr : 0 < r := (ten_zpow_pos k).trans_le hle
  have h₁ : k ≤ Int.log 10 r := (Int.zpow_le_iff_le_log (by norm_num) hr).mp (by exact_mod_cast hle)
  have h₂ : Int.log 10 r < k + 1 :=
    (Int.lt_zpow_iff_log_lt (by norm_num) hr).mp (by exact_mod_cast hlt)
  omega

/-- The first digit of a decimal stands as many places before the last one as it has further
digits. -/
theorem log_toRat (hx : x.unscaled ≠ 0) : Int.log 10 |x.toRat| = x.digits - 1 - x.scale := by
  have hdigits := digits_pos x
  apply log_eq_of_le_of_lt
  · rw [abs_toRat, sub_eq_add_neg, ten_zpow_add]
    refine mul_le_mul_of_nonneg_right ?_ (ten_zpow_pos _).le
    rw [← Nat.cast_pred hdigits, zpow_natCast]
    exact_mod_cast pow_digits_le_natAbs x hx
  · rw [abs_toRat, show (x.digits : ℤ) - 1 - x.scale + 1 = x.digits + -x.scale by ring,
      ten_zpow_add]
    refine mul_lt_mul_of_pos_right ?_ (ten_zpow_pos _)
    rw [zpow_natCast]
    exact_mod_cast natAbs_lt_pow_digits x

end Decimal

end ComputedField
