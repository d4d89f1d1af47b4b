import Mathlib.Algebra.Order.Round
import ComputedField.Decimal.Rounding
import ComputedField.Proofs.Decimal.Number

/-!
# What rounding means

`RoundingMode.pick` says which integer each mode picks for a rational number, and
`MathContext.rounded` which number stands for another at a precision; neither mentions digits or
remainders. Division with a remainder, rounding to a scale and rounding to a precision are shown to
be these (`roundDiv_eq_pick`, `toRat_rescale`, `toRat_round`).

A mode looks at a number only through the two halves around it, `⌊2 * x⌋` and `⌈2 * x⌉`. That is why
some digits more and one that tells whether anything is left decide the same as the exact number.
-/

set_option autoImplicit false

namespace ComputedField

namespace RoundingMode

/-- The integer that the mode picks for `x`. -/
def pick (mode : RoundingMode) (x : ℚ) : ℤ :=
  match mode with
  | up => if x < 0 then ⌊x⌋ else ⌈x⌉
  | down => if x < 0 then ⌈x⌉ else ⌊x⌋
  | ceiling => ⌈x⌉
  | floor => ⌊x⌋
  | halfUp => if x < 0 then ⌈x - 1 / 2⌉ else ⌊x + 1 / 2⌋
  | halfDown => if x < 0 then ⌊x + 1 / 2⌋ else ⌈x - 1 / 2⌉
  | halfEven => if Even ⌊x⌋ then ⌈x - 1 / 2⌉ else ⌊x + 1 / 2⌋

/-- The mode that does to a number what the given one does to its negative. -/
def mirrored : RoundingMode → RoundingMode
  | ceiling => floor
  | floor => ceiling
  | mode => mode

/-! ## The halves around a number -/

section Halves

variable (x : ℚ)

theorem floor_eq_halves : ⌊x⌋ = ⌊2 * x⌋ / 2 := by
  have h := Int.natCast_mul_floor_div_cancel (two_ne_zero : (2 : ℕ) ≠ 0) x
  exact_mod_cast h.symm

theorem ceil_eq_halves : ⌈x⌉ = (⌈2 * x⌉ + 1) / 2 := by
  have h := floor_eq_halves (-x)
  rw [mul_neg, Int.floor_neg, Int.floor_neg] at h
  omega

theorem floor_add_half : ⌊x + 1 / 2⌋ = (⌊2 * x⌋ + 1) / 2 := by
  rw [floor_eq_halves, mul_add, show (2 : ℚ) * (1 / 2) = 1 by norm_num, Int.floor_add_one]

theorem ceil_sub_half : ⌈x - 1 / 2⌉ = ⌈2 * x⌉ / 2 := by
  rw [ceil_eq_halves, mul_sub, show (2 : ℚ) * (1 / 2) = 1 by norm_num, Int.ceil_sub_one,
    sub_add_cancel]

theorem neg_iff_halves : x < 0 ↔ ⌊2 * x⌋ < 0 := by
  rw [Int.floor_lt, Int.cast_zero, mul_neg_iff]
  norm_num

/-- The integer that the mode picks for a number between the halves `a / 2` and `b / 2`, both the
number itself if it is one. -/
def pickHalves (mode : RoundingMode) (a b : ℤ) : ℤ :=
  match mode with
  | up => if a < 0 then a / 2 else (b + 1) / 2
  | down => if a < 0 then (b + 1) / 2 else a / 2
  | ceiling => (b + 1) / 2
  | floor => a / 2
  | halfUp => if a < 0 then b / 2 else (a + 1) / 2
  | halfDown => if a < 0 then (a + 1) / 2 else b / 2
  | halfEven => if a / 2 % 2 = 0 then b / 2 else (a + 1) / 2

theorem pick_eq_pickHalves (mode : RoundingMode) :
    mode.pick x = mode.pickHalves ⌊2 * x⌋ ⌈2 * x⌉ := by
  cases mode <;>
    simp only [pick, pickHalves, ← floor_eq_halves, ← ceil_eq_halves, ← floor_add_half,
      ← ceil_sub_half, ← neg_iff_halves, Int.even_iff]

theorem ceil_halves : ⌈2 * x⌉ = ⌊2 * x⌋ ∨ ⌈2 * x⌉ = ⌊2 * x⌋ + 1 := by
  have := Int.floor_le_ceil (2 * x)
  have := Int.ceil_le_floor_add_one (2 * x)
  omega

end Halves

variable (mode : RoundingMode)

/-- Two numbers between the same halves are treated alike. -/
theorem pick_congr {x y : ℚ} (hfloor : ⌊2 * x⌋ = ⌊2 * y⌋) (hceil : ⌈2 * x⌉ = ⌈2 * y⌉) :
    mode.pick x = mode.pick y := by
  rw [pick_eq_pickHalves, pick_eq_pickHalves, hfloor, hceil]

theorem pick_neg (x : ℚ) : mode.pick (-x) = -mode.mirrored.pick x := by
  rw [pick_eq_pickHalves, pick_eq_pickHalves, mul_neg, Int.floor_neg, Int.ceil_neg]
  have := ceil_halves x
  cases mode <;> simp only [pickHalves, mirrored] <;> (try split_ifs) <;> omega

/-- An integer is picked for itself. -/
@[simp] theorem pick_intCast (n : ℤ) : mode.pick n = n := by
  have h : (2 : ℚ) * n = ((2 * n : ℤ) : ℚ) := by push_cast; rfl
  rw [pick_eq_pickHalves, h, Int.floor_intCast, Int.ceil_intCast]
  cases mode <;> simp only [pickHalves] <;> (try split_ifs) <;> omega

@[simp] theorem pick_zero : mode.pick 0 = 0 := by
  have h := mode.pick_intCast 0
  rwa [Int.cast_zero] at h

/-- No mode picks an integer below the next lower one, nor above the next higher one. -/
theorem floor_le_pick (x : ℚ) : ⌊x⌋ ≤ mode.pick x := by
  rw [pick_eq_pickHalves, floor_eq_halves x]
  have := ceil_halves x
  cases mode <;> simp only [pickHalves] <;> (try split_ifs) <;> omega

theorem pick_le_ceil (x : ℚ) : mode.pick x ≤ ⌈x⌉ := by
  rw [pick_eq_pickHalves, ceil_eq_halves x]
  have := ceil_halves x
  cases mode <;> simp only [pickHalves] <;> (try split_ifs) <;> omega

/-- A number between two integers is not rounded beyond them. -/
theorem natAbs_pick_le {x : ℚ} {n : ℕ} (h : |x| ≤ n) : (mode.pick x).natAbs ≤ n := by
  obtain ⟨hlow, hhigh⟩ := abs_le.mp h
  have hfloor : -(n : ℤ) ≤ ⌊x⌋ := Int.le_floor.mpr (by push_cast; exact hlow)
  have hceil : ⌈x⌉ ≤ n := Int.ceil_le.mpr (by push_cast; exact hhigh)
  have := mode.floor_le_pick x
  have := mode.pick_le_ceil x
  omega

end RoundingMode

/-! ## Division with a remainder -/

section Quotient

variable (mode : RoundingMode)

theorem grows_not (negative odd : Bool) (part : Ordering) :
    mode.grows (!negative) odd part = mode.mirrored.grows negative odd part := by
  cases mode <;> simp [RoundingMode.grows, RoundingMode.mirrored]

/-- Dividing a negative number is dividing its negative in the mirrored mode. -/
theorem roundDiv_neg (n : ℤ) (d : ℕ) : roundDiv mode (-n) d = -roundDiv mode.mirrored n d := by
  by_cases hn : n = 0
  · simp [hn, roundDiv]
  · have hsign : decide (-n < 0) = !decide (n < 0) := by
      rw [← decide_not, decide_eq_decide]
      omega
    simp only [roundDiv, Int.natAbs_neg, Int.sign_neg, hsign, grows_not, neg_mul]

/-- Of the halves around a positive quotient a mode picks the neighbour that it grows to. -/
theorem pickHalves_of_remainder (q r d : ℕ) :
    mode.pickHalves (2 * q + if d ≤ 2 * r then 1 else 0) (2 * q + if 2 * r ≤ d then 1 else 2) =
      ((if mode.grows false (q % 2 == 1) (compare (2 * r) d) then q + 1 else q : ℕ) : ℤ) := by
  rcases lt_trichotomy (2 * r) d with h | h | h
  · rw [Nat.compare_eq_lt.mpr h, if_neg (by omega), if_pos h.le]
    cases mode <;> simp [RoundingMode.pickHalves, RoundingMode.grows] <;> omega
  · rw [Nat.compare_eq_eq.mpr h, if_pos h.ge, if_pos h.le]
    cases mode <;> simp [RoundingMode.pickHalves, RoundingMode.grows] <;> omega
  · rw [Nat.compare_eq_gt.mpr h, if_pos h.le, if_neg (by omega)]
    cases mode <;> simp [RoundingMode.pickHalves, RoundingMode.grows] <;> omega

section Remainder

variable {d r : ℕ} (q : ℕ) (hpos : 0 < r) (hlt : r < d)
include hpos hlt

/-- The halves around a quotient that is not exact. -/
theorem halves_div :
    ⌊2 * (((d * q + r : ℕ) : ℚ) / d)⌋ = 2 * q + (if d ≤ 2 * r then 1 else 0) ∧
      ⌈2 * (((d * q + r : ℕ) : ℚ) / d)⌉ = 2 * q + (if 2 * r ≤ d then 1 else 2) := by
  have hd : (0 : ℚ) < d := Nat.cast_pos.mpr (by omega)
  obtain ⟨t, ht⟩ : ∃ t : ℚ, t = ((2 * r : ℕ) : ℚ) / d := ⟨_, rfl⟩
  have hsplit : 2 * (((d * q + r : ℕ) : ℚ) / d) = 2 * q + t := by
    rw [ht]
    push_cast
    field_simp
  have ht₀ : 0 < t := ht ▸ div_pos (Nat.cast_pos.mpr (by omega)) hd
  have ht₂ : t < 2 := by
    rw [ht, div_lt_iff₀ hd]
    exact_mod_cast Nat.mul_lt_mul_of_pos_left hlt two_pos
  have hle : d ≤ 2 * r ↔ 1 ≤ t := by rw [ht, le_div_iff₀ hd, one_mul, Nat.cast_le]
  have hge : 2 * r ≤ d ↔ t ≤ 1 := by rw [ht, div_le_iff₀ hd, one_mul, Nat.cast_le]
  rw [hsplit, Int.floor_eq_iff, Int.ceil_eq_iff]
  simp only [hle, hge]
  constructor <;> split_ifs <;> push_cast <;> constructor <;> linarith

end Remainder

theorem roundDiv_natCast (n : ℕ) {d : ℕ} (hd : 0 < d) :
    roundDiv mode n d = mode.pick ((n : ℚ) / d) := by
  obtain ⟨q, hq⟩ : ∃ q, n / d = q := ⟨_, rfl⟩
  obtain ⟨r, hr⟩ : ∃ r, n % d = r := ⟨_, rfl⟩
  have hn : d * q + r = n := hq ▸ hr ▸ Nat.div_add_mod n d
  have hlt : r < d := hr ▸ Nat.mod_lt n hd
  rw [roundDiv, Int.natAbs_natCast, hq, hr, decide_eq_false (by omega)]
  rcases Nat.eq_zero_or_pos r with rfl | hpos
  · have hexact : (n : ℚ) / d = (q : ℤ) := by
      have : (d : ℚ) ≠ 0 := Nat.cast_ne_zero.mpr hd.ne'
      rw [← hn]
      push_cast
      field_simp
      simp
    rw [hexact, RoundingMode.pick_intCast]
    rcases Nat.eq_zero_or_pos n with rfl | hpos
    · simp [← hq]
    · simp [Int.sign_natCast_of_ne_zero hpos.ne']
  · have h₀ : r ≠ 0 := hpos.ne'
    have hhalves := halves_div q hpos hlt
    rw [hn] at hhalves
    rw [RoundingMode.pick_eq_pickHalves, hhalves.1, hhalves.2, pickHalves_of_remainder,
      Int.sign_natCast_of_ne_zero (by omega)]
    simp [h₀]

/-- Division with a remainder rounds the exact quotient. -/
theorem roundDiv_eq_pick (n : ℤ) {d : ℕ} (hd : 0 < d) :
    roundDiv mode n d = mode.pick ((n : ℚ) / d) := by
  obtain ⟨m, rfl | rfl⟩ := Int.eq_nat_or_neg n
  · rw [roundDiv_natCast mode m hd, Int.cast_natCast]
  · rw [roundDiv_neg, roundDiv_natCast _ m hd, Int.cast_neg, neg_div, RoundingMode.pick_neg,
      Int.cast_natCast]

end Quotient

/-- The integers around a number that is smaller than one are told by its sign. -/
theorem floor_of_abs_lt_one {t : ℚ} (h : |t| < 1) :
    ⌊t⌋ = (if t < 0 then -1 else 0) ∧ ⌈t⌉ = if 0 < t then 1 else 0 := by
  obtain ⟨h₁, h₂⟩ := abs_lt.mp h
  constructor
  · split_ifs <;> rw [Int.floor_eq_iff] <;> constructor <;> push_cast <;> linarith
  · split_ifs <;> rw [Int.ceil_eq_iff] <;> constructor <;> push_cast <;> linarith

/-! ## Rounding to a precision -/

namespace MathContext

variable (ctx : MathContext)

/-- The unit of the last digit that the context keeps of `x`. -/
def unit (x : ℚ) : ℚ := 10 ^ (Int.log 10 |x| + 1 - ctx.precision)

/-- `x` rounded once to the precision of the context: a multiple of the unit of the last digit
kept. -/
def rounded (x : ℚ) : ℚ := ctx.rounding.pick (x / ctx.unit x) * ctx.unit x

theorem unit_pos (x : ℚ) : 0 < ctx.unit x := ten_zpow_pos _

@[simp] theorem rounded_zero : ctx.rounded 0 = 0 := by simp [rounded]

/-- A multiple of its own unit is not rounded. -/
theorem rounded_eq_self {x : ℚ} {n : ℤ} (h : x = n * ctx.unit x) : ctx.rounded x = x := by
  have hn : x / ctx.unit x = n := (div_eq_iff (ctx.unit_pos x).ne').mpr h
  rw [rounded, hn, RoundingMode.pick_intCast, ← h]

/-- The context that does to a number what the given one does to its negative. -/
def mirrored : MathContext := { ctx with rounding := ctx.rounding.mirrored }

theorem rounded_neg (x : ℚ) : ctx.rounded (-x) = -ctx.mirrored.rounded x := by
  have hunit : ctx.unit (-x) = ctx.mirrored.unit x := by rw [unit, abs_neg]; rfl
  rw [rounded, hunit, neg_div, RoundingMode.pick_neg, Int.cast_neg, neg_mul]
  rfl

/-- Rounding to a precision does not depend on where the point stands. -/
theorem rounded_mul_zpow (x : ℚ) (k : ℤ) : ctx.rounded (x * 10 ^ k) = ctx.rounded x * 10 ^ k := by
  by_cases hx : x = 0
  · simp [hx]
  · have hk : (10 : ℚ) ^ k ≠ 0 := (ten_zpow_pos k).ne'
    have hlog : Int.log 10 |x * 10 ^ k| = Int.log 10 |x| + k := by
      rw [abs_mul, abs_of_pos (ten_zpow_pos k)]
      have hle := Int.zpow_log_le_self (by norm_num : 1 < 10) (abs_pos.mpr hx)
      have hlt := Int.lt_zpow_succ_log_self (by norm_num : 1 < 10) |x|
      apply Decimal.log_eq_of_le_of_lt
      · rw [ten_zpow_add]
        exact mul_le_mul_of_nonneg_right (by exact_mod_cast hle) (ten_zpow_pos k).le
      · rw [add_right_comm, ten_zpow_add]
        exact mul_lt_mul_of_pos_right (by exact_mod_cast hlt) (ten_zpow_pos k)
    have hunit : ctx.unit (x * 10 ^ k) = ctx.unit x * 10 ^ k := by
      rw [unit, hlog, unit, ← ten_zpow_add]
      congr 1
      ring
    rw [rounded, rounded, hunit, mul_div_mul_right _ _ hk, mul_assoc]

/-- A number has its first digit in the place that the context keeps first. -/
theorem pow_le_div_unit {x : ℚ} (hx : 0 < x) : (10 : ℚ) ^ (ctx.precision - 1) ≤ x / ctx.unit x := by
  rw [le_div_iff₀ (ctx.unit_pos x), unit, abs_of_pos hx, ← zpow_natCast, ← ten_zpow_add,
    Nat.cast_pred ctx.positive]
  have hle := Int.zpow_log_le_self (by norm_num : 1 < 10) hx
  rw [show (ctx.precision : ℤ) - 1 + (Int.log 10 x + 1 - ctx.precision) = Int.log 10 x by ring]
  exact_mod_cast hle

theorem rounded_pos {x : ℚ} (hx : 0 < x) : 0 < ctx.rounded x := by
  refine mul_pos (Int.cast_pos.mpr ?_) (ctx.unit_pos x)
  refine lt_of_lt_of_le ?_ (ctx.rounding.floor_le_pick _)
  refine Int.floor_pos.mpr (le_trans ?_ (ctx.pow_le_div_unit hx))
  exact one_le_pow₀ (by norm_num)

/-- Only zero is rounded to zero. -/
theorem rounded_eq_zero {x : ℚ} : ctx.rounded x = 0 ↔ x = 0 := by
  constructor
  · intro h
    rcases lt_trichotomy x 0 with hx | hx | hx
    · have := ctx.mirrored.rounded_pos (neg_pos.mpr hx)
      rw [← neg_neg x, rounded_neg, neg_eq_zero] at h
      exact absurd h this.ne'
    · exact hx
    · exact absurd h (ctx.rounded_pos hx).ne'
  · rintro rfl
    exact ctx.rounded_zero

/-- The integers around a number of more digits than the context keeps tell where its first digit
stands. -/
theorem log_congr {x y : ℚ} (hx : 1 ≤ x) (hfloor : ⌊x⌋ = ⌊y⌋) : Int.log 10 x = Int.log 10 y := by
  have hpos : 0 < x := by linarith
  obtain ⟨l, hl⟩ : ∃ l : ℕ, Int.log 10 x = l := by
    refine Int.eq_ofNat_of_zero_le ((Int.zpow_le_iff_le_log (by norm_num) hpos).mp ?_)
    simpa using hx
  have hle := Int.zpow_log_le_self (by norm_num : 1 < 10) hpos
  have hlt := Int.lt_zpow_succ_log_self (by norm_num : 1 < 10) x
  rw [hl] at hle hlt ⊢
  symm
  apply Decimal.log_eq_of_le_of_lt
  · have hle' : ((10 ^ l : ℤ) : ℚ) ≤ x := by exact_mod_cast hle
    rw [← Int.le_floor, hfloor, Int.le_floor] at hle'
    exact_mod_cast hle'
  · have hlt' : x < ((10 ^ (l + 1) : ℤ) : ℚ) := by exact_mod_cast hlt
    rw [← Int.floor_lt, hfloor, Int.floor_lt] at hlt'
    exact_mod_cast hlt'

/-- **Guard digits.** A number with more digits before the point than the context keeps is rounded
like any other one between the same integers. -/
theorem rounded_congr_of_pos {x y : ℚ} (hx : 10 ^ ctx.precision ≤ x) (hfloor : ⌊x⌋ = ⌊y⌋)
    (hceil : ⌈x⌉ = ⌈y⌉) : ctx.rounded x = ctx.rounded y := by
  have hone : 1 ≤ x := le_trans (one_le_pow₀ (by norm_num)) hx
  have hpos : 0 < y := by
    have : 0 < ⌊y⌋ := hfloor ▸ Int.floor_pos.mpr hone
    exact lt_of_lt_of_le (Int.cast_pos.mpr this) (Int.floor_le y)
  have hlog : ctx.precision ≤ Int.log 10 x :=
    (Int.zpow_le_iff_le_log (by norm_num) (by linarith)).mp (by exact_mod_cast hx)
  have hunit : ctx.unit x = ctx.unit y := by
    rw [unit, unit, abs_of_pos (by linarith), abs_of_pos hpos, log_congr hone hfloor]
  -- a unit is twice an integer, so that the integers around `x` tell on which side of a half it is
  obtain ⟨m, hm⟩ : ∃ m : ℕ, ctx.unit x = 2 * m := by
    refine ⟨5 * 10 ^ (Int.log 10 x - ctx.precision).toNat, ?_⟩
    rw [unit, abs_of_pos (by linarith), show Int.log 10 x + 1 - ctx.precision =
      1 + (Int.log 10 x - ctx.precision) by ring, ten_zpow_add,
      ten_zpow_toNat (sub_nonneg.mpr hlog)]
    push_cast
    ring
  have hhalf (z : ℚ) : 2 * (z / (2 * m)) = z / m := by
    rw [← mul_div_assoc, mul_div_mul_left _ _ two_ne_zero]
  have hneg (z : ℚ) : ⌈z / m⌉ = -⌊-z / m⌋ := by rw [neg_div, Int.floor_neg, neg_neg]
  rw [rounded, rounded, ← hunit, hm]
  congr 2
  apply ctx.rounding.pick_congr
  · rw [hhalf, hhalf, Int.floor_div_natCast, Int.floor_div_natCast, hfloor]
  · rw [hhalf, hhalf, hneg, hneg, Int.floor_div_natCast, Int.floor_div_natCast, Int.floor_neg,
      Int.floor_neg, hceil]

theorem rounded_congr {x y : ℚ} (hx : 10 ^ ctx.precision ≤ |x|) (hfloor : ⌊x⌋ = ⌊y⌋)
    (hceil : ⌈x⌉ = ⌈y⌉) : ctx.rounded x = ctx.rounded y := by
  rcases le_total 0 x with h | h
  · exact ctx.rounded_congr_of_pos (by rwa [abs_of_nonneg h] at hx) hfloor hceil
  · rw [← neg_neg x, ← neg_neg y, rounded_neg, rounded_neg ctx (-y)]
    refine congrArg _ (ctx.mirrored.rounded_congr_of_pos ?_ ?_ ?_)
    · rwa [abs_of_nonpos h] at hx
    · rw [Int.floor_neg, Int.floor_neg, hceil]
    · rw [Int.ceil_neg, Int.ceil_neg, hfloor]

end MathContext

namespace Decimal

variable (x : Decimal)

/-! ## Rounding to a scale -/

/-- With one digit more taken off than there are, less than a half remains. -/
theorem unscaled_div_small {j : ℕ} (hj : x.digits + 1 ≤ j) :
    |2 * ((x.unscaled : ℚ) / 10 ^ j)| < 1 := by
  have hlt : (x.unscaled.natAbs : ℚ) < 10 ^ x.digits := by exact_mod_cast x.natAbs_lt_pow_digits
  have hpow : (10 : ℚ) ^ (x.digits + 1) ≤ 10 ^ j := pow_le_pow_right₀ (by norm_num) hj
  have hj₀ : (0 : ℚ) < 10 ^ j := pow_pos (by norm_num) j
  rw [pow_succ] at hpow
  rw [abs_mul, abs_two, abs_div, abs_of_pos hj₀, ← mul_div_assoc, div_lt_iff₀ hj₀, ← Int.cast_abs,
    Int.abs_eq_natAbs, Int.cast_natCast]
  linarith

/-- How many digits go beyond the last one does not matter for what is picked: the sign alone
decides. -/
theorem pick_div_pow_min (mode : RoundingMode) (k : ℕ) :
    mode.pick (x.unscaled / 10 ^ min k (x.digits + 1)) = mode.pick (x.unscaled / 10 ^ k) := by
  rcases le_total k (x.digits + 1) with h | h
  · rw [min_eq_left h]
  · rw [min_eq_right h]
    obtain ⟨hfloor₁, hceil₁⟩ := floor_of_abs_lt_one (x.unscaled_div_small le_rfl)
    obtain ⟨hfloor₂, hceil₂⟩ := floor_of_abs_lt_one (x.unscaled_div_small h)
    have hneg (j : ℕ) : 2 * ((x.unscaled : ℚ) / 10 ^ j) < 0 ↔ x.unscaled < 0 := by
      rw [← mul_div_assoc, div_lt_iff₀ (pow_pos (by norm_num) j), zero_mul]
      exact_mod_cast (by omega : 2 * x.unscaled < 0 ↔ x.unscaled < 0)
    have hpos (j : ℕ) : 0 < 2 * ((x.unscaled : ℚ) / 10 ^ j) ↔ 0 < x.unscaled := by
      rw [← mul_div_assoc, lt_div_iff₀ (pow_pos (by norm_num) j), zero_mul]
      exact_mod_cast (by omega : 0 < 2 * x.unscaled ↔ 0 < x.unscaled)
    apply mode.pick_congr
    · rw [hfloor₁, hfloor₂]
      simp only [hneg]
    · rw [hceil₁, hceil₂]
      simp only [hpos]

/-- Rounding to a scale picks a multiple of the unit of that scale. -/
theorem unscaled_rescale (scale : ℤ) (mode : RoundingMode) :
    (x.rescale scale mode).unscaled = mode.pick (x.toRat * 10 ^ scale) := by
  unfold rescale
  split
  · next h => rw [← x.intCast_unscaledAt h, RoundingMode.pick_intCast]
  · next h =>
    rw [toRat_mul_zpow]
    have hten : (10 : ℚ) ^ (scale - x.scale) = 1 / 10 ^ (x.scale - scale).toNat := by
      rw [one_div, ← zpow_natCast, ← zpow_neg, Int.toNat_of_nonneg (by omega), neg_sub]
    show roundDiv mode x.unscaled (10 ^ min _ (x.digits + 1)) = _
    rw [roundDiv_eq_pick _ _ (Nat.pow_pos (by decide)), hten, mul_one_div, Nat.cast_pow,
      Nat.cast_ofNat, pick_div_pow_min]

@[simp] theorem scale_rescale (scale : ℤ) (mode : RoundingMode) :
    (x.rescale scale mode).scale = scale := by
  unfold rescale
  split <;> rfl

theorem toRat_rescale (scale : ℤ) (mode : RoundingMode) :
    (x.rescale scale mode).toRat = mode.pick (x.toRat * 10 ^ scale) * 10 ^ (-scale) := by
  rw [toRat, unscaled_rescale, scale_rescale]

/-- Nothing is rounded as long as only trailing zeros go. -/
theorem toRat_rescale_of_le {scale : ℤ} (h : x.normalized.scale ≤ scale) (mode : RoundingMode) :
    (x.rescale scale mode).toRat = x.toRat := by
  rw [toRat_rescale, ← toRat_normalized, ← intCast_unscaledAt _ h, RoundingMode.pick_intCast,
    intCast_unscaledAt _ h, mul_assoc, ← ten_zpow_add, add_neg_cancel, zpow_zero, mul_one]

/-- The unit of the last digit that a context keeps of a decimal. -/
theorem unit_toRat (ctx : MathContext) (hx : x.unscaled ≠ 0) :
    ctx.unit x.toRat = 10 ^ (x.digits - x.scale - ctx.precision : ℤ) := by
  rw [MathContext.unit, log_toRat x hx]
  congr 1
  ring

/-- **Rounding a decimal rounds its number.** -/
theorem toRat_round (ctx : MathContext) : (x.round ctx).toRat = ctx.rounded x.toRat := by
  by_cases hx : x.unscaled = 0
  · have : x.digits ≤ ctx.precision := by
      rw [digits_le_iff x ctx.positive, hx]
      exact Nat.pow_pos (by decide)
    rw [round, if_pos this, (toRat_eq_zero x).mpr hx, MathContext.rounded_zero]
  unfold round
  split
  · next h =>
    -- all digits are kept: the number is a multiple of the unit
    refine (ctx.rounded_eq_self (n := x.unscaled * 10 ^ (ctx.precision - x.digits)) ?_).symm
    rw [unit_toRat x ctx hx, toRat, Int.cast_mul, Int.cast_pow, Int.cast_ofNat, ← zpow_natCast,
      Nat.cast_sub h, mul_assoc, ← ten_zpow_add]
    congr 2
    ring
  · rw [toRat_rescale, MathContext.rounded, unit_toRat x ctx hx, div_eq_mul_inv, ← zpow_neg]
    rw [show -((x.digits : ℤ) - x.scale - ctx.precision) =
        x.scale + ctx.precision - x.digits by ring,
      show (x.digits : ℤ) - x.scale - ctx.precision =
        -(x.scale + ctx.precision - x.digits) by ring]

end Decimal

end ComputedField
