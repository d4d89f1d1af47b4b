import ComputedField.Proofs.Value.Widening
import Mathlib

/-!
# Comparisons

Numbers compare with numbers, strings with strings and dates with dates. In each of these classes
the values are ordered as keys in a linear order are (`Value.HasKey.compare_eq`): a number, integer
or decimal of any scale, by the number that it denotes, a string by its characters, a date by its
year, month and day. So the six comparisons agree with one total order, and a pair from two classes
is a fault of kind for all of them (`apply_relation_coherent`).
-/

set_option autoImplicit false

namespace ComputedField

/-! ## Keys -/

namespace Decimal

/-- A decimal that is brought to the larger of two scales counts its number in units of it. -/
theorem intCast_unscaledAt_max (x : Decimal) (scale : ℤ) :
    (x.unscaledAt scale : ℚ) = x.toRat * 10 ^ max x.scale scale := by
  rcases le_total x.scale scale with h | h
  · rw [max_eq_right h, x.intCast_unscaledAt h]
  · rw [max_eq_left h, toRat_mul_zpow, sub_self, zpow_zero, mul_one, unscaledAt,
      Int.toNat_of_nonpos (sub_nonpos.mpr h), pow_zero, mul_one]

/-- Decimals are ordered as the numbers that they denote. -/
theorem compare_eq_compare_toRat (a b : Decimal) :
    a.compare b = Ord.compare a.toRat b.toRat := by
  rw [compare, ← cmp_eq_compare, ← cmp_eq_compare,
    ← (Int.cast_strictMono (R := ℚ)).cmp_map_eq, intCast_unscaledAt_max, intCast_unscaledAt_max,
    max_comm b.scale, cmp_mul_pos_right (ten_zpow_pos _)]

end Decimal

namespace Date

/-- A date as it is ordered: the year before the month, the month before the day. -/
def key (d : Date) : ℤ ×ₗ ℕ ×ₗ ℕ := toLex (d.year, toLex (d.month, d.day))

theorem compare_eq_compare_key (a b : Date) : a.compare b = Ord.compare a.key b.key := by
  rw [Prod.Lex.compare_def]
  rfl

end Date

/-! ## Values and their keys -/

namespace Value

/-- A class of values that have an order among them. -/
inductive OrderedKind where
  | number
  | string
  | date
deriving DecidableEq, Repr

/-- What the values of a class are ordered by. -/
def OrderedKind.Key : OrderedKind → Type
  | number => ℚ
  | string => String
  | date => ℤ ×ₗ ℕ ×ₗ ℕ

instance : (c : OrderedKind) → LinearOrder c.Key
  | .number => inferInstanceAs (LinearOrder ℚ)
  | .string => inferInstanceAs (LinearOrder String)
  | .date => inferInstanceAs (LinearOrder (ℤ ×ₗ ℕ ×ₗ ℕ))

/-- The value is of the class, and ordered by the key. Truth values, arrays and null are of none. -/
inductive HasKey : (c : OrderedKind) → Value → c.Key → Prop where
  | integer (n : Int) : HasKey .number (.integer n) (n : ℚ)
  | decimal (d : Decimal) : HasKey .number (.decimal d) d.toRat
  | string (s : String) : HasKey .string (.string s) s
  | date (d : Date) : HasKey .date (.date d) d.key

variable {a b : Value} {c c' : OrderedKind}

theorem HasKey.toDecimal? {q : ℚ} (h : HasKey .number a q) :
    ∃ x, a.toDecimal? = some x ∧ x.toRat = q := by
  cases h with
  | integer n => exact ⟨.ofInt n, rfl, Decimal.toRat_ofInt n⟩
  | decimal x => exact ⟨x, rfl, rfl⟩

/-- Two integers compare as the decimals that they widen to. -/
theorem compare_of_toDecimal? {x y : Decimal} (ha : a.toDecimal? = some x)
    (hb : b.toDecimal? = some y) : a.compare b = .ok (x.compare y) := by
  cases a with
  | integer m =>
    cases ha
    cases b with
    | integer n =>
      cases hb
      exact congrArg Except.ok (Decimal.compare_ofInt m n).symm
    | decimal y =>
      cases hb
      rfl
    | _ => cases hb
  | decimal x =>
    cases ha
    cases b with
    | integer | decimal =>
      cases hb
      rfl
    | _ => cases hb
  | _ => cases ha

/-- **The values of a class are ordered as their keys are.** -/
theorem HasKey.compare_eq {x y : c.Key} (ha : HasKey c a x) (hb : HasKey c b y) :
    a.compare b = .ok (Ord.compare x y) := by
  cases c with
  | number =>
    obtain ⟨m, hm, rfl⟩ := ha.toDecimal?
    obtain ⟨n, hn, rfl⟩ := hb.toDecimal?
    rw [compare_of_toDecimal? hm hn, Decimal.compare_eq_compare_toRat]
    rfl
  | string =>
    cases ha
    cases hb
    rfl
  | date =>
    cases ha with
    | date d =>
      cases hb with
      | date e => exact congrArg Except.ok (d.compare_eq_compare_key e)

/-- Values of different classes have no order. -/
theorem HasKey.compare_eq_error {x : c.Key} {y : c'.Key} (ha : HasKey c a x) (hb : HasKey c' b y)
    (h : c ≠ c') : a.compare b = .error (.kind (.operands .comparison a.kind b.kind)) := by
  cases ha <;> cases hb <;> first
    | rfl
    | exact absurd rfl h

end Value

/-! ## The six comparisons -/

namespace Relation

variable {α : Type} [LinearOrder α] (x y : α)

theorem less_holds_compare : less.holds (Ord.compare x y) = true ↔ x < y := by
  simp [holds, compare_lt_iff_lt]

theorem equal_holds_compare : equal.holds (Ord.compare x y) = true ↔ x = y := by
  simp [holds]

end Relation

namespace BinaryOp

open Value

variable (ctx : MathContext) {a b : Value} {c c' : OrderedKind}

/-- A comparison of values that have keys asks only how they are ordered. -/
theorem apply_relation (r : Relation) {x : c.Key} {y : c'.Key} (ha : HasKey c a x)
    (hb : HasKey c' b y) :
    BinaryOp.apply ctx (.relation r) a b = (a.compare b).map fun o => .boolean (r.holds o) := by
  have happly : BinaryOp.apply ctx (.relation r) a b = r.apply a b := by
    cases ha <;> cases hb <;> rfl
  have hordered : (!r.isEquality && a.kind == .boolean) = false := by
    cases ha <;> simp [kind]
  rw [happly, Relation.apply, hordered]
  cases a.compare b <;> rfl

/-- The comparison `r` holds of `a` and `b`. -/
def Holds (r : Relation) (a b : Value) : Prop :=
  BinaryOp.apply ctx (.relation r) a b = .ok (.boolean true)

section Order

variable {x y : c.Key} (ha : HasKey c a x) (hb : HasKey c b y)

include ha hb

theorem apply_relation_keys (r : Relation) :
    BinaryOp.apply ctx (.relation r) a b = .ok (.boolean (r.holds (Ord.compare x y))) := by
  rw [apply_relation ctx r ha hb, ha.compare_eq hb]
  rfl

theorem holds_less_iff : Holds ctx .less a b ↔ x < y := by
  rw [Holds, apply_relation_keys ctx ha hb, ← Relation.less_holds_compare x y]
  simp

theorem holds_equal_iff : Holds ctx .equal a b ↔ x = y := by
  rw [Holds, apply_relation_keys ctx ha hb, ← Relation.equal_holds_compare x y]
  simp

end Order

/-- **Comparisons form one coherent total order.** Of two numbers (integers, decimals of any scales,
or one of each), two strings or two dates all six comparisons have a truth value. Exactly one of
less, equal and greater is true: less and equal where the keys are, which for numbers means the
numbers that they denote. The other three are what these three say, and swapping the operands swaps
less with greater. Less and equal are transitive, alone and together. A pair from two classes is a
fault of kind for all six. -/
theorem apply_relation_coherent :
    (∀ (c : OrderedKind) (a b : Value) (x y : c.Key), HasKey c a x → HasKey c b y →
      ∃ holds : Relation → Bool,
        (∀ r, BinaryOp.apply ctx (.relation r) a b = .ok (.boolean (holds r))) ∧
        ((holds .less).toNat + (holds .equal).toNat + (holds .greater).toNat = 1) ∧
        (holds .less = true ↔ x < y) ∧ (holds .equal = true ↔ x = y) ∧
        holds .lessEqual = (holds .less || holds .equal) ∧
        holds .greaterEqual = (holds .greater || holds .equal) ∧
        holds .notEqual = (!holds .equal) ∧
        BinaryOp.apply ctx (.relation .less) b a = .ok (.boolean (holds .greater)) ∧
        BinaryOp.apply ctx (.relation .greater) b a = .ok (.boolean (holds .less))) ∧
    (∀ (c : OrderedKind) (u v w : Value) (x y z : c.Key),
      HasKey c u x → HasKey c v y → HasKey c w z →
      (Holds ctx .less u v → Holds ctx .less v w → Holds ctx .less u w) ∧
      (Holds ctx .equal u v → Holds ctx .equal v w → Holds ctx .equal u w) ∧
      (Holds ctx .less u v → Holds ctx .equal v w → Holds ctx .less u w) ∧
      (Holds ctx .equal u v → Holds ctx .less v w → Holds ctx .less u w)) ∧
    ∀ (c c' : OrderedKind) (a b : Value) (x : c.Key) (y : c'.Key), c ≠ c' → HasKey c a x →
      HasKey c' b y → ∀ r, BinaryOp.apply ctx (.relation r) a b =
        .error (.kind (.operands .comparison a.kind b.kind)) := by
  refine ⟨fun c a b x y ha hb => ?_, fun c u v w x y z hu hv hw => ?_,
    fun c c' a b x y hc ha hb r => ?_⟩
  · -- one answer of the order decides all six comparisons, and the swapped two
    have hswap : Ord.compare y x = (Ord.compare x y).swap := Std.OrientedOrd.eq_swap
    refine ⟨fun r => r.holds (Ord.compare x y), apply_relation_keys ctx ha hb, ?_,
      Relation.less_holds_compare x y, Relation.equal_holds_compare x y, ?_⟩
    · cases Ord.compare x y <;> rfl
    · rw [apply_relation_keys ctx hb ha, apply_relation_keys ctx hb ha, hswap]
      cases Ord.compare x y <;> exact ⟨rfl, rfl, rfl, rfl, rfl⟩
  · rw [holds_less_iff ctx hu hv, holds_less_iff ctx hv hw, holds_less_iff ctx hu hw,
      holds_equal_iff ctx hu hv, holds_equal_iff ctx hv hw, holds_equal_iff ctx hu hw]
    exact ⟨lt_trans, Eq.trans, lt_of_lt_of_eq, lt_of_eq_of_lt⟩
  · rw [apply_relation ctx r ha hb, ha.compare_eq_error hb hc]
    rfl

/-- Ten as an integer and with a negative scale, and a decimal just above it. -/
theorem apply_relation_coherent_scales :
    let ten : Value := .decimal ⟨1, -1⟩
    let above : Value := .decimal ⟨100001, 4⟩
    Holds .standard .equal (.integer 10) ten ∧ Holds .standard .less ten above ∧
      Holds .standard .less (.integer 10) above ∧ Holds .standard .greater above (.integer 10) ∧
      BinaryOp.apply .standard (.relation .less) above (.string "11") =
        .error (.kind (.operands .comparison .decimal .string)) := by
  intro ten above
  obtain ⟨hanswers, htrans, hclasses⟩ := apply_relation_coherent .standard
  have hequal : Holds .standard .equal (.integer 10) ten := rfl
  have hless : Holds .standard .less ten above := rfl
  have hkey : HasKey .number above _ := .decimal _
  have hlast := (htrans .number _ _ _ _ _ _ (.integer 10) (.decimal _) hkey).2.2.2 hequal hless
  refine ⟨hequal, hless, hlast, ?_,
    hclasses .number .string _ _ _ _ (by decide) hkey (.string "11") _⟩
  obtain ⟨holds, hall, -, -, -, -, -, -, -, hswap⟩ := hanswers .number _ _ _ _ (.integer 10) hkey
  have htrue : holds .less = true := by simpa [Holds, hall] using hlast
  rw [Holds, hswap, htrue]

end BinaryOp

end ComputedField
