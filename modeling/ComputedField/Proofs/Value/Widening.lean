import ComputedField.Proofs.Decimal.Precision
import ComputedField.Proofs.Value.Operators

/-!
# Operators commute with widening

An integer may reach an operator as it is or widened to a decimal; where that happens is up to the
checker and to folding. Both ways come to the same (`BinaryOp.apply_widened`): a sum, a difference, a
product or a power of decimals is the exact one of the integers rounded to the context, a remainder
is the same number, comparisons hold alike, and what fails on one side fails on the other.
-/

set_option autoImplicit false

namespace ComputedField

/-! ## Decimals without fractional digits -/

namespace Decimal

variable (m n : ℤ)

@[simp] theorem pad_zero (x : Decimal) : x.pad 0 = x := by simp [pad]

theorem add_ofInt : (ofInt m).add (ofInt n) = ofInt (m + n) := by
  by_cases hn : n = 0
  · simp [add, isZero, ofInt, hn]
  · by_cases hm : m = 0
    · simp [add, isZero, ofInt, hn, hm]
    · simp [add, isZero, ofInt, hn, hm, unscaledAt]

theorem sub_ofInt : (ofInt m).sub (ofInt n) = ofInt (m - n) := by
  simp [sub, ofInt, unscaledAt]

theorem toRat_of_isOne {x : Decimal} (h : x.isOne = true) : x.toRat = 1 := by
  obtain ⟨hscale, -, hunscaled⟩ := of_decide_eq_true h
  rw [toRat, hunscaled, ← ten_zpow_toNat hscale, ← ten_zpow_add, add_neg_cancel, zpow_zero]

/-- The product denotes the product, also where a factor is one and the other loses its zeros. -/
theorem toRat_mul (x y : Decimal) : (x.mul y).toRat = x.toRat * y.toRat := by
  unfold mul
  split
  · next h => rw [toRat_normalized, toRat_of_isOne h, one_mul]
  · split
    · next h => rw [toRat_normalized, toRat_of_isOne h, mul_one]
    · rw [toRat, toRat, toRat, Int.cast_mul, neg_add, ten_zpow_add]
      ring

theorem truncate_ofInt : (ofInt n).truncate = n := truncate_of_toRat _ (toRat_ofInt n)

theorem compare_ofInt : (ofInt m).compare (ofInt n) = Ord.compare m n := by
  simp [compare, unscaledAt, ofInt]

/-- The power to a whole exponent that is not negative. -/
theorem power_ofInt (ctx : MathContext) (base : Decimal) {e : ℤ} (he : 0 ≤ e) :
    power ctx base (ofInt e) =
      if maxExponent < e.toNat then .error .tooLarge
      else .ok ((base.exactPower e.toNat).round ctx) := by
  have hwhole : (ofInt e).isWhole = true := (isWhole_iff _).mpr ⟨e, toRat_ofInt e⟩
  have habs : e.natAbs = e.toNat := by omega
  rw [power, if_pos hwhole, truncate_ofInt, wholePower, habs]
  simp only [if_neg (not_lt.mpr he)]

end Decimal

/-! ## Operations on numbers -/

/-- An outcome on integers and one on decimals: two numbers, of which `f` makes the second out of the
first, or one fault. -/
inductive Corresponds (f : ℚ → ℚ) : Except EvalFault Value → Except EvalFault Value → Prop where
  | ok {n : ℤ} {d : Decimal} : d.toRat = f n → Corresponds f (.ok (.integer n)) (.ok (.decimal d))
  | error (fault : EvalFault) : Corresponds f (.error fault) (.error fault)

theorem Corresponds.of_ok {f : ℚ → ℚ} {n : ℤ} {r : Except EvalFault Value}
    (h : Corresponds f (.ok (.integer n)) r) : ∃ d, r = .ok (.decimal d) ∧ d.toRat = f n := by
  cases h with
  | ok hd => exact ⟨_, rfl, hd⟩

namespace Arithmetic

open Decimal

variable (ctx : MathContext) (a b : ℤ)

/-- Sums, differences and products of integers are exact; those of decimals are rounded. -/
theorem onDecimals_ofInt {op : Arithmetic} (hop : op = add ∨ op = subtract ∨ op = multiply) :
    ∃ n d, op.onIntegers a b = .ok n ∧ op.onDecimals ctx (ofInt a) (ofInt b) = .ok d ∧
      d.toRat = ctx.rounded n := by
  rcases hop with rfl | rfl | rfl
  · exact ⟨a + b, _, rfl, rfl, by rw [add_ofInt, toRat_round, toRat_ofInt]⟩
  · exact ⟨a - b, _, rfl, rfl, by rw [sub_ofInt, toRat_round, toRat_ofInt]⟩
  · refine ⟨a * b, _, rfl, rfl, ?_⟩
    rw [toRat_round, toRat_mul, toRat_ofInt, toRat_ofInt, Int.cast_mul]

/-- A remainder of decimals is one of their integer parts, and is not rounded. -/
theorem corresponds_modulo :
    Corresponds id ((modulo.onIntegers a b).map .integer)
      ((modulo.onDecimals ctx (ofInt a) (ofInt b)).map .decimal) := by
  simp only [onIntegers, onDecimals, truncate_ofInt]
  cases positiveModulo a b with
  | ok r => exact .ok (toRat_ofInt r)
  | error fault => exact .error _

/-- An exponent that is not negative is too large for both, or gives the power and its rounding. -/
theorem power_cases {b : ℤ} (hb : 0 ≤ b) :
    ((maxExponent : ℤ) < b ∧ power.onIntegers a b = .error .exponentTooLarge ∧
      power.onDecimals ctx (ofInt a) (ofInt b) = .error .exponentTooLarge) ∨
    (b ≤ maxExponent ∧ ∃ n d, power.onIntegers a b = .ok n ∧
      power.onDecimals ctx (ofInt a) (ofInt b) = .ok d ∧ d.toRat = ctx.rounded n) := by
  simp only [onIntegers, onDecimals, integerPower, if_neg (not_lt.mpr hb), power_ofInt ctx _ hb]
  by_cases hlarge : maxExponent < b.toNat
  · rw [if_pos hlarge, if_pos hlarge]
    exact .inl ⟨by omega, rfl, rfl⟩
  · rw [if_neg hlarge, if_neg hlarge]
    refine .inr ⟨by omega, a ^ b.toNat, _, rfl, rfl, ?_⟩
    rw [toRat_round, toRat_exactPower, toRat_ofInt, Int.cast_pow]

end Arithmetic

/-! ## Operators on values -/

namespace Value

variable (a b : ℤ) (t u : Option Ty)

/-- Widened or not, an integer stands for one decimal. -/
theorem toDecimal?_castTo_integer : ((integer a).castTo t).toDecimal? = some (Decimal.ofInt a) := by
  rw [castTo_integer]
  split <;> rfl

theorem kind_castTo_decimal : ((integer a).castTo (some .decimal)).kind = .decimal := by
  rw [castTo_integer, if_pos rfl]
  rfl

/-- Widened or not, integers are ordered as integers. -/
theorem compare_castTo :
    ((integer a).castTo t).compare ((integer b).castTo u) = .ok (Ord.compare a b) := by
  rw [castTo_integer, castTo_integer]
  split <;> split <;> simp [compare, toDecimal?, Decimal.compare_ofInt]

end Value

namespace BinaryOp

variable (ctx : MathContext) (a b : ℤ)

theorem apply_integers (op : Arithmetic) :
    BinaryOp.apply ctx (.arithmetic op) (.integer a) (.integer b) =
      (op.onIntegers a b).map .integer := by
  simp [BinaryOp.apply, Arithmetic.apply, Value.isNull, Value.isString]

/-- Next to a widened integer the other one is taken for a decimal. -/
theorem apply_castTo (op : Arithmetic) {t u : Option Ty}
    (h : t = some .decimal ∨ u = some .decimal) :
    BinaryOp.apply ctx (.arithmetic op) ((Value.integer a).castTo t) ((Value.integer b).castTo u) =
      (op.onDecimals ctx (.ofInt a) (.ofInt b)).map .decimal := by
  refine apply_decimals ctx op (Value.toDecimal?_castTo_integer a t)
    (Value.toDecimal?_castTo_integer b u) ?_
  rcases h with rfl | rfl
  · exact .inl (Value.kind_castTo_decimal a)
  · exact .inr (Value.kind_castTo_decimal b)

theorem apply_relation_castTo (r : Relation) (t u : Option Ty) :
    BinaryOp.apply ctx (.relation r) ((Value.integer a).castTo t) ((Value.integer b).castTo u) =
      .ok (.boolean (r.holds (Ord.compare a b))) := by
  have hnull (n : ℤ) (t : Option Ty) : ((Value.integer n).castTo t).isNull = false := by
    rw [Value.castTo_integer]
    split <;> rfl
  have hkind : ((Value.integer a).castTo t).kind ≠ .boolean := by
    rw [Value.castTo_integer]
    split <;> simp [Value.kind]
  simp [BinaryOp.apply, Relation.apply, Value.compare_castTo, hkind, hnull]

/-- **Operators commute with widening.** Let one of two integers, or both, be cast to decimals. Then
addition, subtraction and multiplication give the result of the integers rounded to the context. A
remainder is the remainder of the integers, not rounded, or fails with the same fault. To a power
that is not negative, the result is that of the integers rounded to the context; on both sides it
fails exactly beyond the largest exponent, as too large. And every comparison holds of the integers
if and only if it holds of what they are cast to. -/
theorem apply_widened {t u : Option Ty} (h : t = some .decimal ∨ u = some .decimal) :
    let x := (Value.integer a).castTo t
    let y := (Value.integer b).castTo u
    (∀ op : Arithmetic, op = .add ∨ op = .subtract ∨ op = .multiply →
      Corresponds ctx.rounded (BinaryOp.apply ctx (.arithmetic op) (.integer a) (.integer b))
        (BinaryOp.apply ctx (.arithmetic op) x y) ∧
      ∃ n, BinaryOp.apply ctx (.arithmetic op) (.integer a) (.integer b) = .ok (.integer n)) ∧
    Corresponds id (BinaryOp.apply ctx .modulo (.integer a) (.integer b))
      (BinaryOp.apply ctx .modulo x y) ∧
    (0 ≤ b →
      Corresponds ctx.rounded (BinaryOp.apply ctx .power (.integer a) (.integer b))
        (BinaryOp.apply ctx .power x y) ∧
      ∀ fault, BinaryOp.apply ctx .power (.integer a) (.integer b) = .error fault ↔
        fault = .exponentTooLarge ∧ (maxExponent : ℤ) < b) ∧
    ∀ r : Relation, ∃ holds : Bool,
      BinaryOp.apply ctx (.relation r) (.integer a) (.integer b) = .ok (.boolean holds) ∧
      BinaryOp.apply ctx (.relation r) x y = .ok (.boolean holds) := by
  intro x y
  have hplain (op : Arithmetic) := apply_integers ctx a b op
  have hwidened (op : Arithmetic) : BinaryOp.apply ctx (.arithmetic op) x y =
      (op.onDecimals ctx (.ofInt a) (.ofInt b)).map .decimal := apply_castTo ctx a b op h
  refine ⟨fun op hop => ?_, ?_, fun hb => ?_, fun r => ?_⟩
  · obtain ⟨n, d, hn, hd, hround⟩ := Arithmetic.onDecimals_ofInt ctx a b hop
    rw [hplain, hwidened, hn, hd]
    exact ⟨.ok hround, _, rfl⟩
  · rw [hplain, hwidened]
    exact Arithmetic.corresponds_modulo ctx a b
  · rw [hplain, hwidened]
    rcases Arithmetic.power_cases ctx a hb with ⟨hlarge, hn, hd⟩ | ⟨hsmall, n, d, hn, hd, hround⟩
    · rw [hn, hd]
      refine ⟨.error _, fun fault => ?_⟩
      simp [hlarge, Except.map, eq_comm]
    · rw [hn, hd]
      refine ⟨.ok hround, fun fault => ?_⟩
      simp [not_lt.mpr hsmall, Except.map]
  · have hunchanged := apply_relation_castTo ctx a b r none none
    rw [Value.castTo_integer, Value.castTo_integer] at hunchanged
    exact ⟨_, hunchanged, apply_relation_castTo ctx a b r t u⟩

/-- To one digit the sum of `7` and `8` is `20`, not `15`. -/
theorem apply_widened_sum :
    ∃ d : Decimal, BinaryOp.apply ⟨1, .halfEven, Nat.one_pos⟩ .add (.integer 7) (.integer 8) =
        .ok (.integer 15) ∧
      BinaryOp.apply ⟨1, .halfEven, Nat.one_pos⟩ .add ((Value.integer 7).castTo (some .decimal))
        ((Value.integer 8).castTo (some .decimal)) = .ok (.decimal d) ∧ d.toRat = 20 := by
  obtain ⟨hsum, -⟩ := (apply_widened ⟨1, .halfEven, Nat.one_pos⟩ 7 8
    (.inl rfl : some Ty.decimal = some .decimal ∨ some Ty.decimal = some .decimal)).1 .add (.inl rfl)
  have hplain := apply_integers ⟨1, .halfEven, Nat.one_pos⟩ 7 8 .add
  rw [hplain] at hsum
  obtain ⟨d, hd, hround⟩ := hsum.of_ok
  refine ⟨d, hplain, hd, hround.trans ?_⟩
  have hunit := Decimal.toRat_round (.ofInt 15) ⟨1, .halfEven, Nat.one_pos⟩
  rw [Decimal.toRat_ofInt] at hunit
  refine hunit.symm.trans ?_
  have hrounded : (Decimal.ofInt 15).round ⟨1, .halfEven, Nat.one_pos⟩ = ⟨2, -1⟩ := by
    decide +kernel
  rw [hrounded]
  norm_num [Decimal.toRat]

end BinaryOp

end ComputedField
