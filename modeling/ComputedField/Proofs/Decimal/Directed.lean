import ComputedField.Environment.Library
import ComputedField.Proofs.Decimal.Power
import Mathlib

/-!
# Directed rounding

`RoundingMode.Selects mode q n` says what a mode promises of the integer `n` that it puts in the
place of `q`, without saying how that integer is found. Every mode selects one integer for every
number (`selects_iff`), and never a smaller one for a larger number (`pick_mono`). Rounding to a
scale selects among the multiples of the unit of that scale; the integer part, and the standard
functions `floor` and `ceil`, select among the integers (`roundToScale_selects`).
-/

set_option autoImplicit false

namespace ComputedField

namespace RoundingMode

/-- No integer is nearer to `q` than `n`. -/
def IsNearest (q : ℚ) (n : ℤ) : Prop := ∀ k : ℤ, |q - n| ≤ |q - k|

/-- The integer `n` is one of the two neighbours of `q`, and the one that the mode asks for. -/
def Selects (mode : RoundingMode) (q : ℚ) (n : ℤ) : Prop :=
  (n = ⌊q⌋ ∨ n = ⌈q⌉) ∧
    match mode with
    | up => |q| ≤ |(n : ℚ)|
    | down => |(n : ℚ)| ≤ |q|
    | ceiling => q ≤ n
    | floor => n ≤ q
    | halfUp => IsNearest q n ∧ (|q - n| = 1 / 2 → |q| ≤ |(n : ℚ)|)
    | halfDown => IsNearest q n ∧ (|q - n| = 1 / 2 → |(n : ℚ)| ≤ |q|)
    | halfEven => IsNearest q n ∧ (|q - n| = 1 / 2 → Even n)

/-! ## What is picked is selected -/

section Picked

variable {q : ℚ} {n : ℤ}

theorem isNearest_iff : IsNearest q n ↔ |q - n| ≤ 1 / 2 := by
  constructor
  · intro h
    exact (h (round q)).trans (abs_sub_round q)
  · intro h k
    by_cases hk : n = k
    · rw [hk]
    · have hone : (1 : ℚ) ≤ |(n : ℚ) - k| := by
        exact_mod_cast Int.one_le_abs (sub_ne_zero.mpr hk)
      have htriangle := abs_sub_le (n : ℚ) q k
      rw [abs_sub_comm (n : ℚ) q] at htriangle
      linarith

theorem abs_le_abs_of_away {r : ℚ} (hpos : 0 ≤ q → q ≤ r) (hneg : q < 0 → r ≤ q) : |q| ≤ |r| := by
  rcases le_or_gt 0 q with h | h
  · rw [abs_of_nonneg h]
    exact (hpos h).trans (le_abs_self r)
  · rw [abs_of_neg h]
    exact (neg_le_neg (hneg h)).trans (neg_le_abs r)

theorem abs_le_abs_of_toward {r : ℚ} (hpos : 0 ≤ q → 0 ≤ r ∧ r ≤ q)
    (hneg : q < 0 → q ≤ r ∧ r ≤ 0) : |r| ≤ |q| := by
  rcases le_or_gt 0 q with h | h
  · rw [abs_of_nonneg h, abs_of_nonneg (hpos h).1]
    exact (hpos h).2
  · rw [abs_of_neg h, abs_of_nonpos (hneg h).2]
    exact neg_le_neg (hneg h).1

theorem pick_eq_floor_or_ceil (mode : RoundingMode) (q : ℚ) :
    mode.pick q = ⌊q⌋ ∨ mode.pick q = ⌈q⌉ := by
  have := mode.floor_le_pick q
  have := mode.pick_le_ceil q
  have := Int.ceil_le_floor_add_one q
  omega

/-- Half a unit up and down to an integer is to the nearest one, and in the middle to the upper. -/
theorem isNearest_floor_add_half (q : ℚ) :
    IsNearest q ⌊q + 1 / 2⌋ ∧ (|q - ⌊q + 1 / 2⌋| = 1 / 2 → (⌊q + 1 / 2⌋ : ℚ) = q + 1 / 2) := by
  have hle := Int.floor_le (q + 1 / 2)
  have hlt := Int.lt_floor_add_one (q + 1 / 2)
  refine ⟨isNearest_iff.mpr (abs_le.mpr ⟨by linarith, by linarith⟩), fun htie => ?_⟩
  rcases (abs_eq (by norm_num)).mp htie with h | h <;> linarith

/-- Half a unit down and up to an integer is to the nearest one, and in the middle to the lower. -/
theorem isNearest_ceil_sub_half (q : ℚ) :
    IsNearest q ⌈q - 1 / 2⌉ ∧ (|q - ⌈q - 1 / 2⌉| = 1 / 2 → (⌈q - 1 / 2⌉ : ℚ) = q - 1 / 2) := by
  have hle := Int.le_ceil (q - 1 / 2)
  have hlt := Int.ceil_lt_add_one (q - 1 / 2)
  refine ⟨isNearest_iff.mpr (abs_le.mpr ⟨by linarith, by linarith⟩), fun htie => ?_⟩
  rcases (abs_eq (by norm_num)).mp htie with h | h <;> linarith

theorem selects_pick (mode : RoundingMode) (q : ℚ) : mode.Selects q (mode.pick q) := by
  refine ⟨mode.pick_eq_floor_or_ceil q, ?_⟩
  cases mode with
  | up =>
    simp only [pick]
    split_ifs with hq
    · exact abs_le_abs_of_away (fun h => absurd hq h.not_gt) fun _ => Int.floor_le q
    · exact abs_le_abs_of_away (fun _ => Int.le_ceil q) fun h => absurd h hq
  | down =>
    simp only [pick]
    split_ifs with hq
    · refine abs_le_abs_of_toward (fun h => absurd hq h.not_gt) fun _ => ⟨Int.le_ceil q, ?_⟩
      exact_mod_cast Int.ceil_le.mpr (by exact_mod_cast hq.le)
    · refine abs_le_abs_of_toward (fun h => ⟨?_, Int.floor_le q⟩) fun h => absurd h hq
      exact_mod_cast Int.floor_nonneg.mpr h
  | ceiling => exact Int.le_ceil q
  | floor => exact Int.floor_le q
  | halfUp =>
    simp only [pick]
    split_ifs with hq
    · obtain ⟨hnearest, htie⟩ := isNearest_ceil_sub_half q
      refine ⟨hnearest, fun h => abs_le_abs_of_away (fun h => absurd hq h.not_gt) fun _ => ?_⟩
      linarith [htie h]
    · obtain ⟨hnearest, htie⟩ := isNearest_floor_add_half q
      refine ⟨hnearest, fun h => abs_le_abs_of_away (fun _ => ?_) fun h => absurd h hq⟩
      linarith [htie h]
  | halfDown =>
    simp only [pick]
    split_ifs with hq
    · obtain ⟨hnearest, htie⟩ := isNearest_floor_add_half q
      refine ⟨hnearest, fun h => abs_le_abs_of_toward (fun h => absurd hq h.not_gt) fun _ => ?_⟩
      have hpos : ⌊q + 1 / 2⌋ < 1 := Int.floor_lt.mpr (by push_cast; linarith)
      exact ⟨by linarith [htie h], by exact_mod_cast Int.le_of_lt_add_one hpos⟩
    · obtain ⟨hnearest, htie⟩ := isNearest_ceil_sub_half q
      refine ⟨hnearest, fun h => abs_le_abs_of_toward (fun _ => ?_) fun h => absurd h hq⟩
      have hneg : -1 < ⌈q - 1 / 2⌉ := Int.lt_ceil.mpr (by push_cast; linarith)
      exact ⟨by exact_mod_cast Int.add_one_le_of_lt hneg, by linarith [htie h]⟩
  | halfEven =>
    simp only [pick]
    split_ifs with heven
    · obtain ⟨hnearest, htie⟩ := isNearest_ceil_sub_half q
      refine ⟨hnearest, fun h => ?_⟩
      have hfloor : ⌊q⌋ = ⌈q - 1 / 2⌉ := by
        have := htie h
        exact Int.floor_eq_iff.mpr ⟨by linarith, by linarith⟩
      rwa [← hfloor]
    · obtain ⟨hnearest, htie⟩ := isNearest_floor_add_half q
      refine ⟨hnearest, fun h => ?_⟩
      have hfloor : ⌊q⌋ = ⌊q + 1 / 2⌋ - 1 := by
        have := htie h
        exact Int.floor_eq_iff.mpr ⟨by push_cast; linarith, by push_cast; linarith⟩
      rw [hfloor, Int.even_sub_one, not_not] at heven
      exact heven

end Picked

/-! ## No other one is -/

section Unique

variable {q : ℚ} {f : ℤ}

/-- Of the integers around a number, one is nearer to zero than the number and one is farther. -/
theorem abs_between (hlt : f < q) (hgt : q < f + 1) :
    (|(f : ℚ)| < |q| ∧ |q| < |(f + 1 : ℚ)|) ∨ (|q| < |(f : ℚ)| ∧ |(f + 1 : ℚ)| < |q|) := by
  rcases le_or_gt 0 f with hf | hf
  · have hf : (0 : ℚ) ≤ f := by exact_mod_cast hf
    rw [abs_of_nonneg hf, abs_of_pos (by linarith : 0 < q), abs_of_pos (by linarith)]
    exact .inl ⟨hlt, hgt⟩
  · have hf : (f : ℚ) + 1 ≤ 0 := by exact_mod_cast hf
    rw [abs_of_neg (by linarith), abs_of_neg (by linarith : q < 0), abs_of_nonpos hf]
    exact .inr ⟨neg_lt_neg hlt, neg_lt_neg hgt⟩

/-- Both are nearest only in the middle. -/
theorem half_of_isNearest (hlow : IsNearest q f) (hhigh : IsNearest q (f + 1)) :
    |q - f| = 1 / 2 ∧ |q - (f + 1 : ℤ)| = 1 / 2 := by
  obtain ⟨-, hlow⟩ := abs_le.mp (isNearest_iff.mp hlow)
  obtain ⟨hhigh, -⟩ := abs_le.mp (isNearest_iff.mp hhigh)
  push_cast at hhigh ⊢
  have hq : q = f + 1 / 2 := by linarith
  rw [hq]
  constructor <;> rw [abs_eq (by norm_num)]
  · exact .inl (by ring)
  · exact .inr (by ring)

/-- No mode selects both the integers around a number. -/
theorem Selects.false_of_both {mode : RoundingMode} (hlt : f < q) (hgt : q < f + 1)
    (hlow : mode.Selects q f) (hhigh : mode.Selects q (f + 1)) : False := by
  have hbetween := abs_between hlt hgt
  obtain ⟨-, hlow⟩ := hlow
  obtain ⟨-, hhigh⟩ := hhigh
  cases mode with
  | up | down =>
    push_cast at hlow hhigh
    rcases hbetween with h | h <;> linarith
  | ceiling => exact absurd hlow hlt.not_ge
  | floor =>
    push_cast at hhigh
    exact absurd hhigh hgt.not_ge
  | halfUp | halfDown =>
    obtain ⟨htie, htie'⟩ := half_of_isNearest hlow.1 hhigh.1
    have hlow := hlow.2 htie
    have hhigh := hhigh.2 htie'
    push_cast at hhigh
    rcases hbetween with h | h <;> linarith
  | halfEven =>
    obtain ⟨htie, htie'⟩ := half_of_isNearest hlow.1 hhigh.1
    exact (Int.even_add_one.mp (hhigh.2 htie')) (hlow.2 htie)

theorem Selects.unique {mode : RoundingMode} {n m : ℤ} (hn : mode.Selects q n)
    (hm : mode.Selects q m) : n = m := by
  by_cases hq : ⌈q⌉ = ⌊q⌋
  · have := hn.1
    have := hm.1
    omega
  · have hceil : ⌈q⌉ = ⌊q⌋ + 1 := by
      have := Int.floor_le_ceil q
      have := Int.ceil_le_floor_add_one q
      omega
    have hgt : q < ⌊q⌋ + 1 := Int.lt_floor_add_one q
    have hlt : ⌊q⌋ < q := (Int.floor_le q).lt_of_ne fun h => hq (by rw [← h]; simp)
    rcases hn.1 with rfl | rfl <;> rcases hm.1 with rfl | rfl
    · rfl
    · rw [hceil] at hm
      exact (Selects.false_of_both hlt hgt hn hm).elim
    · rw [hceil] at hn
      exact (Selects.false_of_both hlt hgt hm hn).elim
    · rfl

theorem Selects.abs_sub_lt_one {mode : RoundingMode} {n : ℤ} (h : mode.Selects q n) :
    |q - n| < 1 := by
  rw [abs_lt]
  rcases h.1 with rfl | rfl
  · constructor <;> linarith [Int.floor_le q, Int.lt_floor_add_one q]
  · constructor <;> linarith [Int.le_ceil q, Int.ceil_lt_add_one q]

/-- A mode selects one integer, the one that it picks. -/
theorem selects_iff {mode : RoundingMode} {n : ℤ} : mode.Selects q n ↔ n = mode.pick q := by
  constructor
  · intro h
    exact h.unique (mode.selects_pick q)
  · rintro rfl
    exact mode.selects_pick q

end Unique

/-! ## Order -/

/-- A larger number is not rounded to a smaller integer. -/
theorem pick_mono (mode : RoundingMode) : Monotone mode.pick := by
  intro x y hxy
  have htwice : 2 * x ≤ 2 * y := by linarith
  have hfloor := Int.floor_le_floor htwice
  have hceil := Int.ceil_le_ceil htwice
  have hx := ceil_halves x
  have hy := ceil_halves y
  rw [pick_eq_pickHalves, pick_eq_pickHalves]
  cases mode <;> simp only [pickHalves] <;> (try split_ifs) <;> omega

end RoundingMode

/-! ## Decimals -/

namespace Decimal

variable (x : Decimal) (s : ℤ) (mode : RoundingMode)

/-- Whether digits have to go or not, rounding to a scale gives the multiple of its unit that is
picked. -/
theorem toRat_roundToScale :
    (x.roundToScale s mode).toRat = mode.pick (x.toRat * 10 ^ s) * 10 ^ (-s) := by
  unfold roundToScale
  split
  · next h =>
    rw [← intCast_unscaledAt x h, RoundingMode.pick_intCast, intCast_unscaledAt x h, mul_assoc,
      ← ten_zpow_add, add_neg_cancel, zpow_zero, mul_one]
  · show (if (x.rescale s mode).isZero then zero else x.rescale s mode).toRat = _
    split
    · next h => rw [← toRat_rescale, (isZero_iff _).mp h, toRat_zero]
    · exact toRat_rescale x s mode

theorem toInteger_eq_pick : x.toInteger mode = mode.pick x.toRat := by
  refine truncate_of_toRat _ ?_
  rw [toRat_roundToScale, neg_zero, zpow_zero, mul_one, mul_one]

theorem roundToScale_mono {y : Decimal} (h : x.toRat ≤ y.toRat) :
    (x.roundToScale s mode).toRat ≤ (y.roundToScale s mode).toRat := by
  have hscaled : x.toRat * 10 ^ s ≤ y.toRat * 10 ^ s :=
    mul_le_mul_of_nonneg_right h (ten_zpow_pos s).le
  rw [toRat_roundToScale, toRat_roundToScale]
  exact mul_le_mul_of_nonneg_right (Int.cast_le.mpr (mode.pick_mono hscaled))
    (ten_zpow_pos (-s)).le

end Decimal

namespace Environment

variable {σ : Type}

theorem invoke_floor (x : Decimal) (host : σ) :
    standard.invoke "floor" [some .decimal] [.decimal x] host =
      .ok (.integer (x.toInteger .floor), host) := rfl

theorem invoke_ceil (x : Decimal) (host : σ) :
    standard.invoke "ceil" [some .decimal] [.decimal x] host =
      .ok (.integer (x.toInteger .ceiling), host) := rfl

end Environment

namespace Decimal

/-- **Rounding to a scale is directed rounding.** A decimal that has no more fractional digits than
are asked for is left alone; any other one is replaced by the multiple of the unit of the scale that
the mode selects, however large that unit is. The standard functions `floor` and `ceil` give the
greatest integer that is not above the number and the least that is not below, and the integer part
drops a fraction toward zero. A larger number gives no smaller a result in any of these. -/
theorem roundToScale_selects {σ : Type} (host : σ) (x : Decimal) (s : ℤ) (mode : RoundingMode) :
    (x.scale ≤ s → x.roundToScale s mode = x) ∧
    (s < x.scale → ∃ n : ℤ, (∀ m, mode.Selects (x.toRat * 10 ^ s) m ↔ m = n) ∧
      (x.roundToScale s mode).toRat = n * 10 ^ (-s)) ∧
    (Environment.standard.invoke "floor" [some .decimal] [.decimal x] host =
        .ok (.integer (x.toInteger .floor), host) ∧
      x.toInteger .floor ≤ x.toRat ∧ x.toRat < x.toInteger .floor + 1) ∧
    (Environment.standard.invoke "ceil" [some .decimal] [.decimal x] host =
        .ok (.integer (x.toInteger .ceiling), host) ∧
      x.toInteger .ceiling - 1 < x.toRat ∧ x.toRat ≤ x.toInteger .ceiling) ∧
    (|(x.truncate : ℚ)| ≤ |x.toRat| ∧ |x.toRat - x.truncate| < 1) ∧
    ∀ y : Decimal, x.toRat ≤ y.toRat →
      (x.roundToScale s mode).toRat ≤ (y.roundToScale s mode).toRat ∧
      x.toInteger .floor ≤ y.toInteger .floor ∧
      x.toInteger .ceiling ≤ y.toInteger .ceiling ∧ x.truncate ≤ y.truncate := by
  have hdown := RoundingMode.down.selects_pick x.toRat
  refine ⟨fun h => if_pos h, fun _ => ?_, ⟨Environment.invoke_floor x host, ?_⟩,
    ⟨Environment.invoke_ceil x host, ?_⟩, ?_, ?_⟩
  · exact ⟨_, fun _ => RoundingMode.selects_iff, x.toRat_roundToScale s mode⟩
  · rw [toInteger_eq_pick]
    exact ⟨Int.floor_le _, Int.lt_floor_add_one _⟩
  · rw [toInteger_eq_pick]
    exact ⟨sub_lt_iff_lt_add.mpr (Int.ceil_lt_add_one _), Int.le_ceil _⟩
  · rw [truncate_eq_pick]
    exact ⟨hdown.2, hdown.abs_sub_lt_one⟩
  · intro y hxy
    simp only [toInteger_eq_pick, truncate_eq_pick]
    exact ⟨x.roundToScale_mono s mode hxy, RoundingMode.floor.pick_mono hxy,
      RoundingMode.ceiling.pick_mono hxy, RoundingMode.down.pick_mono hxy⟩

/-- The unit may be far larger than the number. -/
example : (⟨-2345, 3⟩ : Decimal).roundToScale (-3) .up = ⟨-1, -3⟩ := by decide +kernel

end Decimal

end ComputedField
