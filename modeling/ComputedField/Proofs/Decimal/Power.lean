import ComputedField.Decimal.Power
import ComputedField.Proofs.Decimal.Division

/-!
# Whole powers are exact, then rounded once

The power to a whole exponent, however that is written, is the exact rational power, rounded once to
the precision of the context (`power_rounds_once`). With as many digits as all factors have together
no product on the way to it is rounded (`squaring_eq`), so the only rounding is the last one. For a
reciprocal that one is the division's, which counts digits in a word: where their count wraps around
the quotient is another one (`power_reciprocal_wraps`).
-/

set_option autoImplicit false

namespace ComputedField

namespace Decimal

variable (x : Decimal)

/-! ## Whole numbers -/

/-- The integer part is the integer that rounding toward zero picks. -/
theorem truncate_eq_pick : x.truncate = RoundingMode.down.pick x.toRat := by
  rw [truncate, withScale, unscaled_rescale, zpow_zero, mul_one]

theorem truncate_of_toRat {e : ℤ} (h : x.toRat = e) : x.truncate = e := by
  rw [truncate_eq_pick, h, RoundingMode.pick_intCast]

/-- A decimal has no fractional part exactly if it denotes an integer, whatever its scale. -/
theorem isWhole_iff : x.isWhole = true ↔ ∃ e : ℤ, x.toRat = e := by
  simp only [isWhole, Bool.or_eq_true, decide_eq_true_eq, beq_iff_eq, or_assoc]
  by_cases hscale : x.scale ≤ 0
  · refine iff_of_true (.inr (.inl hscale)) ⟨x.unscaled * 10 ^ (-x.scale).toNat, ?_⟩
    rw [Int.cast_mul, ← ten_zpow_toNat (by omega), toRat]
  have hmove := x.toRat_mul_zpow x.scale
  rw [sub_self, zpow_zero, mul_one, ten_zpow_toNat (by omega)] at hmove
  have hten : ((10 ^ x.scale.toNat : ℤ) : ℚ) ≠ 0 := Int.cast_ne_zero.mpr (by positivity)
  constructor
  · rintro (h | h | h)
    · exact ⟨0, by rw [(isZero_iff x).mp h, Int.cast_zero]⟩
    · exact absurd h hscale
    · obtain ⟨e, he⟩ : (10 : ℤ) ^ x.scale.toNat ∣ x.unscaled := by
        rw [← Int.natAbs_dvd_natAbs, Int.natAbs_pow]
        exact Nat.dvd_of_mod_eq_zero h
      refine ⟨e, mul_right_cancel₀ hten ?_⟩
      rw [hmove, he, Int.cast_mul, mul_comm]
  · rintro ⟨e, he⟩
    rw [he] at hmove
    have h : x.unscaled = e * 10 ^ x.scale.toNat := by exact_mod_cast hmove.symm
    refine .inr (.inr ?_)
    rw [h, Int.natAbs_mul, Int.natAbs_pow]
    exact Nat.mul_mod_left ..

/-! ## Exact powers -/

/-- A product within the accuracy is not rounded. -/
theorem times_eq {ctx : MathContext} {a b : Decimal}
    (h : (a.unscaled * b.unscaled).natAbs < 10 ^ ctx.precision) :
    times ctx a b = ⟨a.unscaled * b.unscaled, a.scale + b.scale⟩ :=
  if_pos ((digits_le_iff _ ctx.positive).mpr h)

section Squaring

variable {ctx : MathContext} {x acc : Decimal} {n : ℕ} (hx : x.unscaled ≠ 0)
  (hacc : acc.unscaled ≠ 0)
include hx

/-- No factor of a power that is within the accuracy is beyond it. -/
theorem natAbs_pow_mul_lt {k : ℕ} (hk : k ≤ n) {c : ℤ}
    (hc : c.natAbs ≤ acc.unscaled.natAbs)
    (h : (x.unscaled ^ n * acc.unscaled).natAbs < 10 ^ ctx.precision) :
    (x.unscaled ^ k * c).natAbs < 10 ^ ctx.precision := by
  refine lt_of_le_of_lt ?_ h
  rw [Int.natAbs_mul, Int.natAbs_mul, Int.natAbs_pow, Int.natAbs_pow]
  exact Nat.mul_le_mul (Nat.pow_le_pow_right (Int.natAbs_pos.mpr hx) hk) hc

include hacc

theorem times_self_eq (hn : 2 ≤ n)
    (h : (x.unscaled ^ n * acc.unscaled).natAbs < 10 ^ ctx.precision) :
    times ctx x x = ⟨x.unscaled ^ 2, x.scale * 2⟩ := by
  have hsquare := natAbs_pow_mul_lt hx hn (c := 1) (Int.natAbs_pos.mpr hacc) h
  rw [mul_one, pow_two] at hsquare
  rw [times_eq hsquare, pow_two, mul_two]

/-- Repeated squaring rounds nothing if the whole power is within the accuracy. -/
theorem squaring_eq (hn : 0 < n)
    (h : (x.unscaled ^ n * acc.unscaled).natAbs < 10 ^ ctx.precision) :
    squaring ctx x acc n = ⟨x.unscaled ^ n * acc.unscaled, x.scale * n + acc.scale⟩ := by
  fun_induction squaring ctx x acc n with
  | case1 x acc n hle =>
    obtain rfl : n = 1 := by omega
    rw [pow_one] at h ⊢
    rw [times_eq h, Nat.cast_one, mul_one]
  | case2 x acc n hlt heven ih =>
    obtain ⟨k, rfl⟩ : ∃ k, n = 2 * k := ⟨n / 2, by omega⟩
    rw [times_self_eq hx hacc (by omega) h, Nat.mul_div_cancel_left k two_pos] at ih ⊢
    rw [pow_mul] at h ⊢
    rw [ih (pow_ne_zero 2 hx) hacc (by omega) h]
    congr 1
    push_cast
    ring
  | case3 x acc n hlt hodd ih =>
    obtain ⟨k, rfl⟩ : ∃ k, n = 2 * k + 1 := ⟨n / 2, by omega⟩
    have hproduct := natAbs_pow_mul_lt hx (Nat.le_add_left 1 (2 * k)) le_rfl h
    rw [pow_one] at hproduct
    have hhalf : (2 * k + 1) / 2 = k := by omega
    rw [times_self_eq hx hacc (by omega) h, times_eq hproduct, hhalf] at ih ⊢
    have hpower : x.unscaled ^ (2 * k + 1) * acc.unscaled =
        (x.unscaled ^ 2) ^ k * (x.unscaled * acc.unscaled) := by
      rw [pow_succ, pow_mul, mul_assoc]
    rw [hpower] at h ⊢
    rw [ih (pow_ne_zero 2 hx) (mul_ne_zero hx hacc) (by omega) h]
    congr 1
    push_cast
    ring

end Squaring

/-- With an accuracy of as many digits as all factors have together, the power is not rounded. -/
theorem toRat_powi {ctx : MathContext} {n : ℕ} (hn : 0 < n) (h : x.digits * n ≤ ctx.precision) :
    (x.powi ctx n).toRat = x.toRat ^ n := by
  unfold powi
  split
  · next hself =>
    rcases hself with hzero | hone
    · rw [(isZero_iff x).mp hzero, zero_pow hn.ne']
    · rw [← toRat_normalized, hone, toRat_one, one_pow]
  · next hself =>
    have hx : x.unscaled ≠ 0 := fun hx => hself (.inl (beq_iff_eq.mpr hx))
    have hfits : (x.unscaled ^ n * one.unscaled).natAbs < 10 ^ ctx.precision := by
      have hone : one.unscaled = 1 := rfl
      rw [hone, mul_one, Int.natAbs_pow]
      calc x.unscaled.natAbs ^ n
          < (10 ^ x.digits) ^ n := Nat.pow_lt_pow_left x.natAbs_lt_pow_digits hn.ne'
        _ = 10 ^ (x.digits * n) := (Nat.pow_mul ..).symm
        _ ≤ 10 ^ ctx.precision := Nat.pow_le_pow_right (by decide) h
    rw [squaring_eq hx (by decide) hn hfits]
    have hone : one = ⟨1, 0⟩ := rfl
    rw [hone, mul_one, add_zero, toRat, toRat, mul_pow, Int.cast_pow,
      ← zpow_natCast (10 ^ (-x.scale)), ← zpow_mul, neg_mul]

/-- The exact power denotes the power of the number. -/
theorem toRat_exactPower (n : ℕ) : (x.exactPower n).toRat = x.toRat ^ n := by
  unfold exactPower
  split
  · simp
  · simp
  · next hn _ => exact x.toRat_powi (Nat.pos_of_ne_zero hn) (Nat.le_succ _)

variable (ctx : MathContext) (base : Decimal)

/-- The words of a power hold the scale of the exact one and of its rounding, and whatever the
division for a reciprocal counts. -/
structure PowerFits (e : ℤ) : Prop where
  exact : minScale ≤ (base.exactPower e.natAbs).scale ∧ (base.exactPower e.natAbs).scale ≤ maxScale
  rounded : 0 ≤ e → minScale ≤ ((base.exactPower e.natAbs).round ctx).scale
  reciprocal : e < 0 → DivisionFits ctx one (base.exactPower e.natAbs)

/-- **Whole powers are rounded once.** Let the exponent denote the integer `e`, at any scale. If `e`
is beyond the largest exponent, on either side, the power is too large. Else zero has no negative
powers, and there is every other power. Where no scale and no count of digits is beyond its word, it
is the exact rational power, rounded to the precision of the context in its mode. -/
theorem power_rounds_once {exponent : Decimal} {e : ℤ} (h : exponent.toRat = e) :
    if maxExponent < e.natAbs then power ctx base exponent = .error .tooLarge
    else if base.toRat = 0 ∧ e < 0 then power ctx base exponent = .error .divisionByZero
    else ∃ r, power ctx base exponent = .ok r ∧
      (PowerFits ctx base e → r.toRat = ctx.rounded (base.toRat ^ e)) := by
  have htruncate := exponent.truncate_of_toRat h
  have hwhole : exponent.isWhole = true := exponent.isWhole_iff.mpr ⟨e, h⟩
  rw [power, if_pos hwhole, htruncate, wholePower]
  split
  · rfl
  rcases lt_or_ge e 0 with he | he
  · obtain ⟨n, hn⟩ : ∃ n : ℕ, e = -n := ⟨e.natAbs, by omega⟩
    have hn₀ : n ≠ 0 := by omega
    have hnone := divide?_eq_none ctx one (base.exactPower n)
    rw [toRat_exactPower, pow_eq_zero_iff hn₀] at hnone
    subst hn
    simp only [if_pos he, Int.natAbs_neg, Int.natAbs_natCast]
    split
    · next hzero => rw [hnone.mpr hzero.1]
    · next hzero =>
      cases hq : divide? ctx one (base.exactPower n) with
      | none => exact absurd ⟨hnone.mp hq, he⟩ hzero
      | some q =>
        refine ⟨q, rfl, fun hfits => ?_⟩
        have hreciprocal := hfits.reciprocal he
        rw [Int.natAbs_neg, Int.natAbs_natCast] at hreciprocal
        rw [toRat_of_divide? hreciprocal hq, toRat_one, toRat_exactPower, zpow_neg, zpow_natCast,
          one_div]
  · obtain ⟨n, rfl⟩ := Int.eq_ofNat_of_zero_le he
    rw [if_neg (by omega)]
    simp only [if_neg (not_lt.mpr he)]
    refine ⟨_, rfl, fun _ => ?_⟩
    rw [toRat_round, toRat_exactPower, Int.natAbs_natCast, zpow_natCast]

theorem power_rounds_once_reciprocal :
    ∃ r, power .standard ⟨15, 1⟩ ⟨-20, 1⟩ = .ok r ∧
      r.toRat = MathContext.standard.rounded ((3 / 2) ^ (-2 : ℤ)) := by
  have hbase : toRat ⟨15, 1⟩ = 3 / 2 := by norm_num [toRat]
  have h := power_rounds_once .standard ⟨15, 1⟩
    (show toRat ⟨-20, 1⟩ = ((-2 : ℤ) : ℚ) by norm_num [toRat])
  rw [if_neg (by decide), hbase, if_neg (by norm_num)] at h
  obtain ⟨r, hr, hrounded⟩ := h
  refine ⟨r, hr, hrounded ⟨by decide +kernel, by decide, fun _ => ?_⟩⟩
  exact ⟨by decide +kernel, by decide +kernel, by decide +kernel, by decide +kernel⟩

/-- The precision is the largest word, and with two digits more the count of digits starts again at
one: the quotient has two digits, of which the last only says that something is left. -/
theorem power_reciprocal_wraps :
    toRat ⟨-1, 0⟩ = ((-1 : ℤ) : ℚ) ∧
      ∃ r, power ⟨UInt64.size - 1, .halfEven, by decide⟩ ⟨40, 1⟩ ⟨-1, 0⟩ = .ok r ∧
        r = ⟨21, 2⟩ ∧
        r.toRat ≠ MathContext.rounded ⟨UInt64.size - 1, .halfEven, by decide⟩
          (toRat ⟨40, 1⟩ ^ (-1 : ℤ)) := by
  refine ⟨by norm_num [toRat], ⟨21, 2⟩, by decide +kernel, rfl, ?_⟩
  have hquarter : toRat ⟨40, 1⟩ ^ (-1 : ℤ) = toRat ⟨25, 2⟩ := by norm_num [toRat]
  rw [hquarter, ← toRat_round, round, if_pos (by decide +kernel)]
  norm_num [toRat]

end Decimal

end ComputedField
