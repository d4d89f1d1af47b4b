import ComputedField.Proofs.Decimal.Power
import ComputedField.Value.Operators

/-!
# How many digits a result has

The unscaled integer of a decimal result is at most `10 ^ precision`. So a result keeps to the
precision unless a rounding carried into a new digit, which leaves a one and zeros, one digit too
many; and rounding such a result once more takes that digit off (`apply_keeps_precision`).
-/

set_option autoImplicit false

namespace ComputedField

namespace Decimal

variable (ctx : MathContext) (x : Decimal)

/-- Rounding leaves no more than the next power of ten. -/
theorem natAbs_round_le : (x.round ctx).unscaled.natAbs ≤ 10 ^ ctx.precision := by
  unfold round
  split
  · next h => exact ((x.digits_le_iff ctx.positive).mp h).le
  · rw [unscaled_rescale]
    apply ctx.rounding.natAbs_pick_le
    have hdigits : (x.unscaled.natAbs : ℚ) ≤ 10 ^ (x.digits : ℤ) := by
      exact_mod_cast x.natAbs_lt_pow_digits.le
    calc |x.toRat * 10 ^ (x.scale + ctx.precision - x.digits : ℤ)|
        = x.unscaled.natAbs * 10 ^ (ctx.precision - x.digits : ℤ) := by
          rw [abs_mul, abs_of_pos (ten_zpow_pos _), abs_toRat, mul_assoc, ← ten_zpow_add]
          congr 2
          ring
      _ ≤ 10 ^ (x.digits : ℤ) * 10 ^ (ctx.precision - x.digits : ℤ) :=
          mul_le_mul_of_nonneg_right hdigits (ten_zpow_pos _).le
      _ = ((10 ^ ctx.precision : ℕ) : ℚ) := by
          rw [← ten_zpow_add, add_sub_cancel, zpow_natCast, Nat.cast_pow, Nat.cast_ofNat]

/-- Trimming adds no digits. -/
theorem natAbs_trimTo_le (preferred : ℤ) :
    (x.trimTo preferred).unscaled.natAbs ≤ x.unscaled.natAbs := by
  have hnumber := congrArg (|·|) (x.toRat_trimTo preferred)
  by_cases hx : x.unscaled = 0
  · have : (x.trimTo preferred).toRat = 0 :=
      (x.toRat_trimTo preferred).trans ((toRat_eq_zero x).mpr hx)
    rw [(toRat_eq_zero _).mp this]
    exact Nat.zero_le _
  · have hscale : (x.trimTo preferred).scale ≤ x.scale :=
      (scale_rescale ..).trans_le (max_le (x.normalized_scale_le hx) (min_le_right _ _))
    rw [abs_toRat, abs_toRat] at hnumber
    have hten : (10 : ℚ) ^ (-x.scale) ≤ 10 ^ (-(x.trimTo preferred).scale) :=
      zpow_le_zpow_right₀ (by norm_num) (by omega)
    have hle := mul_le_mul_of_nonneg_left hten (Nat.cast_nonneg (α := ℚ) x.unscaled.natAbs)
    rw [← hnumber] at hle
    exact_mod_cast le_of_mul_le_mul_right hle (ten_zpow_pos _)

/-- Within the next power of ten a decimal keeps to the precision or is that power. -/
theorem digits_le_or_of_natAbs_le (h : x.unscaled.natAbs ≤ 10 ^ ctx.precision) :
    x.digits ≤ ctx.precision ∨ x.unscaled.natAbs = 10 ^ ctx.precision := by
  rw [x.digits_le_iff ctx.positive]
  exact h.lt_or_eq

/-- Rounding a second time changes nothing but the form of a carry. -/
theorem round_round : (x.round ctx).round ctx = x.round ctx ∨
    (x.round ctx).unscaled.natAbs = 10 ^ ctx.precision ∧
      ((x.round ctx).round ctx).toRat = (x.round ctx).toRat := by
  rcases digits_le_or_of_natAbs_le ctx _ (natAbs_round_le ctx x) with h | h
  · exact .inl (if_pos h)
  · refine .inr ⟨h, ?_⟩
    obtain ⟨y, hy⟩ : ∃ y, x.round ctx = y := ⟨_, rfl⟩
    rw [hy] at h ⊢
    have hne : y.unscaled ≠ 0 := by
      rw [← Int.natAbs_ne_zero, h]
      exact (Nat.pow_pos (by decide)).ne'
    have hdigits : y.digits = ctx.precision + 1 := by
      have hle := (y.digits_le_iff (Nat.succ_pos ctx.precision)).mpr
        (h.trans_lt (Nat.pow_lt_pow_right (by decide) (Nat.lt_succ_self _)))
      have hgt := (y.digits_le_iff ctx.positive).not.mpr h.not_lt
      omega
    obtain ⟨n, hn⟩ : (10 : ℤ) ∣ y.unscaled := by
      rw [← Int.natAbs_dvd_natAbs, h]
      exact dvd_pow_self 10 ctx.positive.ne'
    rw [toRat_round]
    apply ctx.rounded_eq_self (n := n)
    rw [y.unit_toRat ctx hne, hdigits, toRat, hn, Int.cast_mul, Int.cast_ofNat, mul_comm 10,
      mul_assoc]
    congr 1
    rw [show (10 : ℚ) * 10 ^ (-y.scale) = 10 ^ (1 : ℤ) * 10 ^ (-y.scale) by norm_num,
      ← ten_zpow_add]
    congr 1
    push_cast
    ring

/-! ## Results of arithmetic -/

theorem natAbs_of_divide? {ctx : MathContext} {a b q : Decimal} (h : divide? ctx a b = some q) :
    q.unscaled.natAbs ≤ 10 ^ ctx.precision := by
  obtain ⟨-, h'⟩ | ⟨-, -, h'⟩ | ⟨-, -, h'⟩ := divide?_cases ctx a b <;> cases h.symm.trans h'
  · exact Nat.zero_le _
  · exact (natAbs_trimTo_le _ _).trans (natAbs_round_le ctx _)

theorem natAbs_of_power {ctx : MathContext} {base exponent r : Decimal}
    (h : power ctx base exponent = .ok r) : r.unscaled.natAbs ≤ 10 ^ ctx.precision := by
  unfold power wholePower at h
  split at h
  · split at h
    · cases h
    · simp only at h
      split at h
      · split at h
        · next hq =>
          cases h
          exact natAbs_of_divide? hq
        · cases h
      · cases h
        exact natAbs_round_le ctx _
  · split at h
    · cases h
      exact natAbs_round_le ctx _
    · cases h

end Decimal

/-- Every operation on decimals but the remainder leaves no more than the next power of ten. -/
theorem Arithmetic.natAbs_of_onDecimals {ctx : MathContext} {op : Arithmetic} (hop : op ≠ modulo)
    {a b d : Decimal} (h : op.onDecimals ctx a b = .ok d) :
    d.unscaled.natAbs ≤ 10 ^ ctx.precision := by
  cases op with
  | add | subtract | multiply =>
    cases h
    exact Decimal.natAbs_round_le ctx _
  | divide =>
    simp only [onDecimals] at h
    split at h
    · next hq =>
      cases h
      exact Decimal.natAbs_of_divide? hq
    · cases h
  | modulo => exact absurd rfl hop
  | power =>
    simp only [onDecimals] at h
    cases hr : Decimal.power ctx a b with
    | error e =>
      rw [hr] at h
      cases h
    | ok r =>
      rw [hr] at h
      cases h
      exact Decimal.natAbs_of_power hr

/-- Next to a decimal an integer is one. -/
theorem BinaryOp.apply_decimals (ctx : MathContext) (op : Arithmetic) {a b : Value} {m n : Decimal}
    (ha : a.toDecimal? = some m) (hb : b.toDecimal? = some n)
    (hkind : a.kind = .decimal ∨ b.kind = .decimal) :
    BinaryOp.apply ctx (.arithmetic op) a b = (op.onDecimals ctx m n).map .decimal := by
  cases a <;> cases b <;> cases ha <;> cases hb
  all_goals simp_all [BinaryOp.apply, Arithmetic.apply, Value.isNull, Value.isString, Value.kind,
    Value.toDecimal?]

/-- **Decimal results keep to the precision, but for a carry.** Where an operation other than the
remainder succeeds on two numbers that are not both integers, its result is a decimal of no more
digits than the precision, or it is a rounding that carried into a new digit and left a one and
zeros. Rounding twice is rounding once, or takes that digit off and keeps the number. -/
theorem BinaryOp.apply_keeps_precision (ctx : MathContext) :
    (∀ (op : Arithmetic) (a b v : Value), op ≠ .modulo →
      a.toDecimal?.isSome = true → b.toDecimal?.isSome = true →
      (a.kind = .decimal ∨ b.kind = .decimal) →
      BinaryOp.apply ctx (.arithmetic op) a b = .ok v →
      ∃ d, v = .decimal d ∧
        (d.digits ≤ ctx.precision ∨ d.unscaled.natAbs = 10 ^ ctx.precision)) ∧
    ∀ x : Decimal, (x.round ctx).round ctx = x.round ctx ∨
      (x.round ctx).unscaled.natAbs = 10 ^ ctx.precision ∧
        ((x.round ctx).round ctx).toRat = (x.round ctx).toRat := by
  refine ⟨?_, Decimal.round_round ctx⟩
  intro op a b v hop ha hb hkind h
  obtain ⟨m, hm⟩ := Option.isSome_iff_exists.mp ha
  obtain ⟨n, hn⟩ := Option.isSome_iff_exists.mp hb
  rw [BinaryOp.apply_decimals ctx op hm hn hkind] at h
  cases hd : op.onDecimals ctx m n with
  | error e =>
    rw [hd] at h
    cases h
  | ok d =>
    rw [hd] at h
    cases h
    exact ⟨d, rfl, Decimal.digits_le_or_of_natAbs_le ctx d (Arithmetic.natAbs_of_onDecimals hop hd)⟩

theorem BinaryOp.apply_keeps_precision_mixed :
    ∃ d : Decimal, Value.decimal ⟨30, 1⟩ = .decimal d ∧
      (d.digits ≤ MathContext.standard.precision ∨
        d.unscaled.natAbs = 10 ^ MathContext.standard.precision) := by
  have hproduct : Decimal.round .standard (Decimal.mul ⟨15, 1⟩ (Decimal.ofInt 2)) = ⟨30, 1⟩ := by
    decide +kernel
  refine (BinaryOp.apply_keeps_precision .standard).1 .multiply (.decimal ⟨15, 1⟩) (.integer 2) _
    (by decide) rfl rfl (.inl rfl) ?_
  rw [BinaryOp.apply_decimals _ .multiply rfl rfl (.inl rfl)]
  simp only [Arithmetic.onDecimals, hproduct]
  rfl

/-- To three digits `9.99 + 0.005` is `10.00`, which has four, and rounding that once more is
another decimal. -/
theorem BinaryOp.apply_carries :
    BinaryOp.apply ⟨3, .halfUp, Nat.succ_pos 2⟩ (.arithmetic .add) (.decimal ⟨999, 2⟩)
      (.decimal ⟨5, 3⟩) = .ok (.decimal ⟨1000, 2⟩) ∧
    ¬ Decimal.digits ⟨1000, 2⟩ ≤ 3 ∧
    Decimal.round ⟨3, .halfUp, Nat.succ_pos 2⟩ ⟨9995, 3⟩ = ⟨1000, 2⟩ ∧
    Decimal.round ⟨3, .halfUp, Nat.succ_pos 2⟩ ⟨1000, 2⟩ ≠ ⟨1000, 2⟩ := by
  refine ⟨?_, by decide +kernel⟩
  have hsum : Decimal.round ⟨3, .halfUp, Nat.succ_pos 2⟩ (Decimal.add ⟨999, 2⟩ ⟨5, 3⟩) =
      ⟨1000, 2⟩ := by decide +kernel
  rw [BinaryOp.apply_decimals _ .add rfl rfl (.inl rfl)]
  simp only [Arithmetic.onDecimals, hsum]
  rfl

end ComputedField
