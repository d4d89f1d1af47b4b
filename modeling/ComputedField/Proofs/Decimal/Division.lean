import ComputedField.Decimal.Arithmetic
import ComputedField.Proofs.Decimal.Rounding

/-!
# Quotients are rounded once

A quotient is the exact one, rounded to the precision of the context, in every mode, as long as its
digits and scales can be counted (`DivisionFits`, `divide?_rounds_once`). The guarded quotient has
enough digits that what is cut off lies behind the last digit that a rounding looks at, and where
something is cut off one more digit away from zero keeps it between the integers that the exact
quotient lies between (`rounded_guardedQuotient`).
-/

set_option autoImplicit false

namespace ComputedField

namespace Decimal

variable (ctx : MathContext) {a b : Decimal}

/-! ## The guarded quotient -/

/-- Two numbers of one sign, both smaller than one, lie between the same integers. -/
theorem floor_congr_of_abs_lt_one {s t : ℚ} (hs : |s| < 1) (ht : |t| < 1) (h : 0 < s * t) :
    ⌊s⌋ = ⌊t⌋ ∧ ⌈s⌉ = ⌈t⌉ := by
  obtain ⟨hs₁, hs₂⟩ := floor_of_abs_lt_one hs
  obtain ⟨ht₁, ht₂⟩ := floor_of_abs_lt_one ht
  rw [hs₁, hs₂, ht₁, ht₂]
  rcases pos_and_pos_or_neg_and_neg_of_mul_pos h with ⟨h₁, h₂⟩ | ⟨h₁, h₂⟩
  · simp only [h₁, h₂, not_lt.mpr h₁.le, not_lt.mpr h₂.le, if_true, if_false, and_self]
  · simp only [h₁, h₂, not_lt.mpr h₁.le, not_lt.mpr h₂.le, if_true, if_false, and_self]

section Remainder

variable {n m : ℤ} (hm : m ≠ 0)
include hm

theorem div_eq_tdiv_add_tmod_div : (n : ℚ) / m = n.tdiv m + (n.tmod m : ℚ) / m := by
  have hm₀ : (m : ℚ) ≠ 0 := Int.cast_ne_zero.mpr hm
  rw [div_eq_iff hm₀, add_mul, div_mul_cancel₀ _ hm₀]
  exact_mod_cast (Int.tdiv_mul_add_tmod n m).symm

theorem abs_tmod_div_lt_one : |(n.tmod m : ℚ) / m| < 1 := by
  rw [abs_div, div_lt_one (abs_pos.mpr (Int.cast_ne_zero.mpr hm)), ← Int.cast_abs, ← Int.cast_abs,
    Int.cast_lt, Int.abs_eq_natAbs, Int.abs_eq_natAbs, Int.natAbs_tmod]
  exact_mod_cast Nat.mod_lt _ (Int.natAbs_pos.mpr hm)

/-- A digit away from zero stands for a remainder: the quotient with that digit lies between the
same integers as the exact one. -/
theorem sticky_between (hr : n.tmod m ≠ 0) :
    ⌊((n.tdiv m * 10 + n.sign * m.sign : ℤ) : ℚ) / 10⌋ = ⌊(n : ℚ) / m⌋ ∧
      ⌈((n.tdiv m * 10 + n.sign * m.sign : ℤ) : ℚ) / 10⌉ = ⌈(n : ℚ) / m⌉ := by
  have hm₀ : (m : ℚ) ≠ 0 := Int.cast_ne_zero.mpr hm
  have hsticky : ((n.tdiv m * 10 + n.sign * m.sign : ℤ) : ℚ) / 10 =
      n.tdiv m + ((n.sign * m.sign : ℤ) : ℚ) / 10 := by
    push_cast
    ring
  have hsign : n.sign * m.sign = (n.tmod m * m).sign := by
    rw [Int.sign_mul, Int.sign_tmod, if_neg fun h => hr (Int.tmod_eq_zero_of_dvd h)]
  have hne : n.tmod m * m ≠ 0 := mul_ne_zero hr hm
  have hsmall : |((n.sign * m.sign : ℤ) : ℚ) / 10| < 1 := by
    rw [hsign, abs_div, ← Int.cast_abs, Int.abs_sign_of_ne_zero hne]
    norm_num
  have hsame : 0 < ((n.sign * m.sign : ℤ) : ℚ) / 10 * ((n.tmod m : ℚ) / m) := by
    have habs : 0 < (n.tmod m * m).sign * (n.tmod m * m) := by
      rw [Int.sign_mul_self_eq_abs]
      exact abs_pos.mpr hne
    have hproduct : ((n.sign * m.sign : ℤ) : ℚ) / 10 * ((n.tmod m : ℚ) / m) =
        (((n.tmod m * m).sign * (n.tmod m * m) : ℤ) : ℚ) / (10 * (m * m)) := by
      rw [hsign]
      push_cast
      field_simp
    rw [hproduct]
    exact div_pos (Int.cast_pos.mpr habs) (mul_pos (by norm_num) (mul_self_pos.mpr hm₀))
  obtain ⟨hfloor, hceil⟩ := floor_congr_of_abs_lt_one hsmall (abs_tmod_div_lt_one hm) hsame
  rw [div_eq_tdiv_add_tmod_div hm, hsticky, Int.floor_intCast_add, Int.floor_intCast_add,
    Int.ceil_intCast_add, Int.ceil_intCast_add, hfloor, hceil]
  exact ⟨rfl, rfl⟩

end Remainder

/-- The words that a division counts in hold all its digits and scales. -/
structure DivisionFits (ctx : MathContext) (a b : Decimal) : Prop where
  digits : ctx.precision + 2 + b.digits < UInt64.size
  shift : ((ctx.precision + 2 + b.digits - a.digits : ℕ) : ℤ) ≤ maxScale
  preferred : minScale ≤ a.scale - b.scale
  scale : a.scale - b.scale + (ctx.precision + 2 + b.digits - a.digits : ℕ) + 1 ≤ maxScale

theorem clampScale_eq {s : ℤ} (hmin : minScale ≤ s) (hmax : s ≤ maxScale) : clampScale s = s := by
  rw [clampScale, min_eq_left hmax, max_eq_right hmin]

namespace DivisionFits

variable {ctx} (h : DivisionFits ctx a b)
include h

theorem guardShift_eq : guardShift ctx a b = ctx.precision + 2 + b.digits - a.digits := by
  have hshift := h.shift
  rw [guardShift, Nat.mod_eq_of_lt h.digits]
  exact min_eq_left (by omega)

theorem preferredScale_eq : preferredScale a b = a.scale - b.scale :=
  clampScale_eq h.preferred (by have := h.scale; omega)

/-- The guarded quotient without a look at the words. -/
theorem guardedQuotient_eq : guardedQuotient ctx a b =
    (let n := a.unscaled * 10 ^ guardShift ctx a b
     let scale := a.scale - b.scale + guardShift ctx a b
     if n.tmod b.unscaled = 0 then ⟨n.tdiv b.unscaled, scale⟩
     else ⟨n.tdiv b.unscaled * 10 + n.sign * b.unscaled.sign, scale + 1⟩) := by
  have hpreferred := h.preferred
  have hscale := h.scale
  rw [← h.guardShift_eq] at hscale
  rw [guardedQuotient, h.preferredScale_eq]
  simp only
  rw [clampScale_eq (by omega) (by omega), clampScale_eq (by omega) hscale]

end DivisionFits

/-- The lengthened dividend is so long that the quotient has more digits than the context keeps. -/
theorem pow_precision_le_quotient (h : DivisionFits ctx a b) (ha : a.unscaled ≠ 0)
    (hb : b.unscaled ≠ 0) :
    (10 : ℚ) ^ ctx.precision ≤
      |((a.unscaled * 10 ^ guardShift ctx a b : ℤ) : ℚ) / b.unscaled| := by
  have hdividend := pow_digits_le_natAbs a ha
  have hdivisor := b.natAbs_lt_pow_digits
  have hlong : 10 ^ ctx.precision * b.unscaled.natAbs ≤
      (a.unscaled * 10 ^ guardShift ctx a b).natAbs := by
    calc 10 ^ ctx.precision * b.unscaled.natAbs
        ≤ 10 ^ ctx.precision * 10 ^ b.digits := Nat.mul_le_mul_left _ hdivisor.le
      _ = 10 ^ (ctx.precision + b.digits) := (Nat.pow_add ..).symm
      _ ≤ 10 ^ (a.digits - 1 + guardShift ctx a b) := by
        apply Nat.pow_le_pow_right (by decide)
        rw [h.guardShift_eq]
        omega
      _ = 10 ^ (a.digits - 1) * 10 ^ guardShift ctx a b := Nat.pow_add ..
      _ ≤ a.unscaled.natAbs * 10 ^ guardShift ctx a b := Nat.mul_le_mul_right _ hdividend
      _ = (a.unscaled * 10 ^ guardShift ctx a b).natAbs := by
        rw [Int.natAbs_mul, Int.natAbs_pow]
        rfl
  rw [abs_div, le_div_iff₀ (abs_pos.mpr (Int.cast_ne_zero.mpr hb)), ← Int.cast_abs, ← Int.cast_abs,
    Int.abs_eq_natAbs, Int.abs_eq_natAbs]
  exact_mod_cast hlong

/-- Rounding the guarded quotient is rounding the exact one. -/
theorem rounded_guardedQuotient (h : DivisionFits ctx a b) (ha : a.unscaled ≠ 0)
    (hb : b.unscaled ≠ 0) :
    ctx.rounded (guardedQuotient ctx a b).toRat = ctx.rounded (a.toRat / b.toRat) := by
  have hb₀ : (b.unscaled : ℚ) ≠ 0 := Int.cast_ne_zero.mpr hb
  obtain ⟨n, hn⟩ : ∃ n, n = a.unscaled * 10 ^ guardShift ctx a b := ⟨_, rfl⟩
  have hlong := pow_precision_le_quotient ctx h ha hb
  have hexact : a.toRat / b.toRat =
      (n : ℚ) / b.unscaled * 10 ^ (-(a.scale - b.scale + guardShift ctx a b)) := by
    have hscales : (10 : ℚ) ^ (-a.scale) = 10 ^ (guardShift ctx a b : ℤ) *
        10 ^ (-(a.scale - b.scale + guardShift ctx a b)) * 10 ^ (-b.scale) := by
      rw [← ten_zpow_add, ← ten_zpow_add]
      congr 1
      ring
    have hten : (10 : ℚ) ^ (-b.scale) ≠ 0 := (ten_zpow_pos _).ne'
    rw [hn, toRat, toRat, Int.cast_mul, Int.cast_pow, Int.cast_ofNat, ← zpow_natCast, hscales,
      ← mul_assoc, mul_div_mul_right _ _ hten]
    ring
  rw [← hn] at hlong
  rw [hexact, MathContext.rounded_mul_zpow]
  rw [h.guardedQuotient_eq]
  simp only [← hn]
  split
  · next hr =>
    have : (n.tdiv b.unscaled : ℚ) = n / b.unscaled := by
      rw [eq_div_iff hb₀]
      exact_mod_cast Int.tdiv_mul_cancel_of_tmod_eq_zero hr
    rw [toRat, MathContext.rounded_mul_zpow, this]
  · next hr =>
    obtain ⟨hfloor, hceil⟩ := sticky_between hb hr
    rw [ctx.rounded_congr hlong hfloor.symm hceil.symm, ← MathContext.rounded_mul_zpow, toRat]
    rw [show -(a.scale - b.scale + guardShift ctx a b + 1) =
      -1 + -(a.scale - b.scale + guardShift ctx a b) by ring, ten_zpow_add, zpow_neg_one,
      ← mul_assoc, ← div_eq_mul_inv]

/-! ## Trailing zeros -/

variable (x : Decimal)

theorem toRat_trimTo (preferred : ℤ) : (x.trimTo preferred).toRat = x.toRat := by
  by_cases hx : x.unscaled = 0
  · have h : x.toRat = 0 := (toRat_eq_zero x).mpr hx
    rw [trimTo, withScale, toRat_rescale, h, zero_mul, RoundingMode.pick_zero]
    simp
  · rw [trimTo, withScale]
    exact x.toRat_rescale_of_le (le_max_left _ _) _

theorem trimTo_scale_le_or (preferred : ℤ) (hx : x.unscaled ≠ 0) :
    (x.trimTo preferred).scale ≤ preferred ∨ ¬ (10 : ℤ) ∣ (x.trimTo preferred).unscaled := by
  have hscale : (x.trimTo preferred).scale = max x.normalized.scale (min preferred x.scale) :=
    scale_rescale ..
  rcases le_total x.normalized.scale (min preferred x.scale) with h | h
  · left
    rw [hscale, max_eq_right h]
    exact min_le_left _ _
  · right
    rw [max_eq_left h] at hscale
    rw [unscaled_eq_of_toRat hscale ((x.toRat_trimTo preferred).trans x.toRat_normalized.symm)]
    exact x.not_dvd_normalized hx

/-! ## The quotient -/

/-- There is no quotient by zero, a quotient of zero is zero, and any other is the guarded one,
rounded and trimmed. -/
theorem divide?_cases (a b : Decimal) :
    (b.toRat = 0 ∧ divide? ctx a b = none) ∨
      (b.toRat ≠ 0 ∧ a.toRat = 0 ∧ divide? ctx a b = some ⟨0, max (preferredScale a b) 0⟩) ∨
      (b.toRat ≠ 0 ∧ a.toRat ≠ 0 ∧ divide? ctx a b =
        some (((guardedQuotient ctx a b).round ctx).trimTo (preferredScale a b))) := by
  unfold divide?
  by_cases hb : b.toRat = 0
  · exact .inl ⟨hb, if_pos ((isZero_iff b).mpr hb)⟩
  rw [if_neg fun h => hb ((isZero_iff b).mp h)]
  by_cases ha : a.toRat = 0
  · exact .inr (.inl ⟨hb, ha, if_pos ((isZero_iff a).mpr ha)⟩)
  · exact .inr (.inr ⟨hb, ha, if_neg fun h => ha ((isZero_iff a).mp h)⟩)

theorem divide?_eq_none (a b : Decimal) : divide? ctx a b = none ↔ b.toRat = 0 := by
  obtain ⟨hb, h⟩ | ⟨hb, -, h⟩ | ⟨hb, -, h⟩ := divide?_cases ctx a b <;> simp [h, hb]

variable {ctx} {q : Decimal}

/-- The guarded quotient, rounded, is the exact quotient, rounded. -/
theorem toRat_round_guardedQuotient (hfits : DivisionFits ctx a b) (ha : a.toRat ≠ 0)
    (hb : b.toRat ≠ 0) :
    ((guardedQuotient ctx a b).round ctx).toRat = ctx.rounded (a.toRat / b.toRat) := by
  rw [toRat_round]
  exact rounded_guardedQuotient ctx hfits (fun h => ha ((toRat_eq_zero a).mpr h))
    fun h => hb ((toRat_eq_zero b).mpr h)

theorem toRat_of_divide? (hfits : DivisionFits ctx a b) (h : divide? ctx a b = some q) :
    q.toRat = ctx.rounded (a.toRat / b.toRat) := by
  obtain ⟨-, h'⟩ | ⟨-, ha, h'⟩ | ⟨hb, ha, h'⟩ := divide?_cases ctx a b <;> cases h.symm.trans h'
  · rw [ha, zero_div, MathContext.rounded_zero, toRat_eq_zero]
  · rw [toRat_trimTo, toRat_round_guardedQuotient hfits ha hb]

theorem trailing_of_divide? (hfits : DivisionFits ctx a b) (h : divide? ctx a b = some q) :
    q.scale ≤ a.scale - b.scale ∨ ¬ (10 : ℤ) ∣ q.unscaled ∨ a.toRat = 0 := by
  obtain ⟨-, h'⟩ | ⟨-, ha, h'⟩ | ⟨hb, ha, h'⟩ := divide?_cases ctx a b <;> cases h.symm.trans h'
  · exact .inr (.inr ha)
  · rw [hfits.preferredScale_eq]
    refine (trimTo_scale_le_or _ _ ?_).imp_right .inl
    rw [Ne, ← toRat_eq_zero, toRat_round_guardedQuotient hfits ha hb, MathContext.rounded_eq_zero,
      div_eq_zero_iff]
    exact not_or.mpr ⟨ha, hb⟩

/-- **Division rounds exactly once.** There is a quotient unless the divisor is zero. Where no count
of digits and no scale is beyond its word, it is the exact quotient, rounded to the precision of the
context in its mode, and it ends in a zero only if its scale is no larger than the scale of the
dividend less that of the divisor, or if the dividend is zero. -/
theorem divide?_rounds_once (ctx : MathContext) (a b : Decimal) :
    (divide? ctx a b = none ↔ b.toRat = 0) ∧
      (DivisionFits ctx a b →
        ∀ q ∈ divide? ctx a b, q.toRat = ctx.rounded (a.toRat / b.toRat) ∧
          (q.scale ≤ a.scale - b.scale ∨ ¬ (10 : ℤ) ∣ q.unscaled ∨ a.toRat = 0)) :=
  ⟨divide?_eq_none ctx a b, fun hfits _ h =>
    ⟨toRat_of_divide? hfits h, trailing_of_divide? hfits h⟩⟩

/-- Two thirds to three digits, and without a zero at the end. -/
theorem divide?_rounds_once_thirds :
    ∃ q ∈ divide? ⟨3, .halfUp, Nat.succ_pos 2⟩ ⟨20, 1⟩ ⟨30, 1⟩,
      q.toRat = MathContext.rounded ⟨3, .halfUp, Nat.succ_pos 2⟩ (2 / 3) ∧
        (q.scale ≤ 0 ∨ ¬ (10 : ℤ) ∣ q.unscaled) := by
  have hdividend : toRat ⟨20, 1⟩ = 2 := by norm_num [toRat]
  have hdivisor : toRat ⟨30, 1⟩ = 3 := by norm_num [toRat]
  obtain ⟨hnone, hsome⟩ := divide?_rounds_once ⟨3, .halfUp, Nat.succ_pos 2⟩ ⟨20, 1⟩ ⟨30, 1⟩
  have hfits : DivisionFits ⟨3, .halfUp, Nat.succ_pos 2⟩ ⟨20, 1⟩ ⟨30, 1⟩ :=
    ⟨by decide +kernel, by decide +kernel, by decide, by decide +kernel⟩
  replace hsome := hsome hfits
  rw [hdividend, hdivisor] at hsome
  have hne : divide? ⟨3, .halfUp, Nat.succ_pos 2⟩ ⟨20, 1⟩ ⟨30, 1⟩ ≠ none := by
    rw [Ne, hnone, hdivisor]
    norm_num
  obtain ⟨q, hq⟩ := Option.ne_none_iff_exists'.mp hne
  obtain ⟨hvalue, htrailing⟩ := hsome q hq
  exact ⟨q, hq, hvalue, htrailing.imp_right fun h => h.resolve_right (by norm_num)⟩

end Decimal

end ComputedField
