import ComputedField.Proofs.Value.HasType
import ComputedField.Value.Operators

/-!
# Operators on values of their types

On operands of the types that the checker has seen, an operator yields a value of the type that the
checker has given the node. It fails only over numbers (`EvalFault.isArithmetic`), and only if it is
a division, a remainder or a power (`BinaryOp.apply_hasType`). What it makes of literals has a
literal form again (`Value.exists_literal`).
-/

set_option autoImplicit false

namespace ComputedField

/-- The faults that hang on the numbers that turn up. Checking rules out all others: faults of kind,
unknown names and illegal targets. -/
def EvalFault.isArithmetic : EvalFault → Bool
  | divisionByZero | modulusNotPositive | negativeExponent | exponentTooLarge | undefinedPower =>
    true
  | unknownVariable _ | unknownFunction _ | kind _ | illegalTarget => false

/-- `r` is a value of type `t` or, where `mayFail` allows it, a fault over numbers. -/
def Yields (mayFail : Bool) (t : Option Ty) (r : Except EvalFault Value) : Prop :=
  (∃ v, r = .ok v ∧ v.HasType t) ∨
    (mayFail = true ∧ ∃ fault, r = .error fault ∧ fault.isArithmetic = true)

theorem Yields.ok {mayFail : Bool} {t : Option Ty} {v : Value} (h : v.HasType t) :
    Yields mayFail t (.ok v) := .inl ⟨v, rfl, h⟩

/-! ## What an operand can be

A value of a type that passes a test of the checker is null or of the kinds that the test is about. -/

/-- A number, and the type that tells of which kind. -/
inductive Value.IsNumber : Value → Option Ty → Prop where
  | integer (n : Int) : IsNumber (.integer n) (some .integer)
  | decimal (d : Decimal) : IsNumber (.decimal d) (some .decimal)

theorem Value.HasType.number {v : Value} {t : Option Ty} (h : v.HasType t)
    (ht : Ty.numericOrUnknown t = true) : v = .null ∨ v.IsNumber t := by
  cases h with
  | null => exact .inl rfl
  | integer n => exact .inr (.integer n)
  | decimal d => exact .inr (.decimal d)
  | boolean | string | date => cases ht
  | array => simp [Ty.numericOrUnknown, Ty.knownIs, Ty.isNumeric] at ht

theorem Value.HasType.boolean_inv {v : Value} {t : Option Ty} (h : v.HasType t)
    (ht : Ty.booleanOrUnknown t = true) : v = .null ∨ ∃ b, v = .boolean b ∧ t = some .boolean := by
  cases h with
  | null => exact .inl rfl
  | boolean b => exact .inr ⟨b, rfl, rfl⟩
  | integer | decimal | string | date => cases ht
  | array => simp [Ty.booleanOrUnknown, Ty.knownIs] at ht

theorem Value.HasType.string_inv {v : Value} {t : Option Ty} (h : v.HasType t)
    (ht : Ty.stringOrUnknown t = true) : v = .null ∨ ∃ s, v = .string s := by
  cases h with
  | null => exact .inl rfl
  | string s => exact .inr ⟨s, rfl⟩
  | boolean | integer | decimal | date => cases ht
  | array => simp [Ty.stringOrUnknown, Ty.knownIs] at ht

/-! ## One operand -/

theorem UnaryOp.apply_group (v : Value) : group.apply v = .ok v := by
  cases v <;> rfl

theorem UnaryOp.apply_hasType {op : UnaryOp} {t u : Option Ty} {v : Value}
    (ht : op.resultType t = .ok u) (hv : v.HasType t) :
    ∃ w, op.apply v = .ok w ∧ w.HasType u := by
  cases op with
  | group =>
    cases ht
    exact ⟨v, apply_group v, hv⟩
  | positive | negative =>
    simp only [resultType] at ht
    split at ht
    · rename_i hn
      cases ht
      rcases hv.number hn with rfl | h
      · exact ⟨.null, rfl, .null t⟩
      · cases h with
        | integer n => exact ⟨_, rfl, .integer _⟩
        | decimal d => exact ⟨_, rfl, .decimal _⟩
    · cases ht
  | not =>
    simp only [resultType] at ht
    split at ht
    · rename_i hb
      cases ht
      rcases hv.boolean_inv hb with rfl | ⟨b, rfl, -⟩
      · exact ⟨.null, rfl, .null _⟩
      · exact ⟨_, rfl, .boolean _⟩
    · cases ht

/-! ## Arithmetic -/

theorem EvalFault.isArithmetic_ofModulo (fault : ModuloFault) :
    (ofModulo fault).isArithmetic = true := by
  cases fault <;> rfl

theorem EvalFault.isArithmetic_ofPower (fault : PowerFault) :
    (ofPower fault).isArithmetic = true := by
  cases fault <;> rfl

namespace Arithmetic

/-- Whether the operation can fail on numbers. -/
def isPartial (op : Arithmetic) : Bool := (BinaryOp.arithmetic op).mayFail

theorem onIntegers_yields (op : Arithmetic) (m n : Int) :
    Yields op.isPartial (some .integer) ((op.onIntegers m n).map .integer) := by
  cases op with
  | add | subtract | multiply => exact .ok (.integer _)
  | divide =>
    simp only [onIntegers]
    split
    · exact .inr ⟨rfl, _, rfl, rfl⟩
    · exact .ok (.integer _)
  | modulo =>
    cases h : positiveModulo m n with
    | ok r => simp only [onIntegers, h]; exact .ok (.integer r)
    | error fault =>
      simp only [onIntegers, h]
      exact .inr ⟨rfl, _, rfl, EvalFault.isArithmetic_ofModulo fault⟩
  | power =>
    cases h : integerPower m n with
    | ok r => simp only [onIntegers, h]; exact .ok (.integer r)
    | error fault =>
      simp only [onIntegers, h]
      exact .inr ⟨rfl, _, rfl, EvalFault.isArithmetic_ofPower fault⟩

theorem onDecimals_yields (ctx : MathContext) (op : Arithmetic) (a b : Decimal) :
    Yields op.isPartial (some .decimal) ((op.onDecimals ctx a b).map .decimal) := by
  cases op with
  | add | subtract | multiply => exact .ok (.decimal _)
  | divide =>
    simp only [onDecimals]
    split
    · exact .ok (.decimal _)
    · exact .inr ⟨rfl, _, rfl, rfl⟩
  | modulo =>
    cases h : positiveModulo a.truncate b.truncate with
    | ok r => simp only [onDecimals, h]; exact .ok (.decimal _)
    | error fault =>
      simp only [onDecimals, h]
      exact .inr ⟨rfl, _, rfl, EvalFault.isArithmetic_ofModulo fault⟩
  | power =>
    cases h : Decimal.power ctx a b with
    | ok r => simp only [onDecimals, h]; exact .ok (.decimal r)
    | error fault =>
      simp only [onDecimals, h]
      exact .inr ⟨rfl, _, rfl, EvalFault.isArithmetic_ofPower fault⟩

/-- The type of an operation on two numbers: integer if both are, else decimal. -/
theorem apply_yields (ctx : MathContext) (op : Arithmetic) {a b : Value} {t u : Option Ty}
    (ha : a.IsNumber t) (hb : b.IsNumber u) :
    Yields op.isPartial (Ty.numericResult t u) (op.apply ctx a b) := by
  cases ha with
  | integer m =>
    cases hb with
    | integer n => exact op.onIntegers_yields m n
    | decimal b => exact op.onDecimals_yields ctx _ b
  | decimal a =>
    cases hb with
    | integer n => exact op.onDecimals_yields ctx a _
    | decimal b => exact op.onDecimals_yields ctx a b

end Arithmetic

/-! ## Comparison -/

theorem Value.HasType.compare_ok {a b : Value} {t u : Option Ty} {equality : Bool}
    (ha : a.HasType t) (hb : b.HasType u) (ht : Ty.comparable equality t u = true)
    (hna : a.isNull = false) (hnb : b.isNull = false) : ∃ o, a.compare b = .ok o := by
  -- of all pairs of kinds, the test lets through those that `compare` orders
  cases ha <;> cases hb <;> first
    | exact ⟨_, rfl⟩
    | simp [Ty.comparable, Ty.knownIs, Ty.widened, Ty.isComparable, isNull] at ht hna hnb

theorem Relation.apply_hasType {r : Relation} {a b : Value} {t u : Option Ty}
    (ht : Ty.comparable r.isEquality t u = true) (ha : a.HasType t) (hb : b.HasType u)
    (hna : a.isNull = false) (hnb : b.isNull = false) :
    ∃ v, r.apply a b = .ok v ∧ v.HasType (some .boolean) := by
  obtain ⟨o, ho⟩ := ha.compare_ok hb ht hna hnb
  have hordered : (!r.isEquality && a.kind == .boolean) = false := by
    cases hr : r.isEquality with
    | true => rfl
    | false =>
      rw [hr] at ht
      cases ha with
      | boolean => simp [Ty.comparable, Ty.knownIs, Ty.widened, Ty.isComparable] at ht
      | _ => rfl
  exact ⟨.boolean (r.holds o), by simp [apply, hordered, ho], .boolean _⟩

/-! ## Connectives -/

/-- The truth of a value that may stand where a truth value is asked for. -/
theorem Value.HasType.truth {v : Value} {t : Option Ty} (h : v.HasType t)
    (ht : Ty.booleanOrUnknown t = true) : ∃ b, v = .ofTruth b ∧ v.truth = .ok b := by
  rcases h.boolean_inv ht with rfl | ⟨b, rfl, -⟩
  · exact ⟨none, rfl, rfl⟩
  · exact ⟨some b, rfl, rfl⟩

theorem Value.hasType_ofTruth (b : Option Bool) : (ofTruth b).HasType (some .boolean) := by
  cases b with
  | none => exact .null _
  | some b => exact .boolean b

theorem Value.truth_ofTruth (b : Option Bool) : (ofTruth b).truth = .ok b := by
  rcases b with _ | _ | _ <;> rfl

theorem Value.castTo_ofTruth (b : Option Bool) : (ofTruth b).castTo (some .boolean) = ofTruth b :=
  (hasType_ofTruth b).castTo_eq

namespace Connective

/-- Beside a neutral operand the other one is the result. -/
theorem apply_neutral_left (c : Connective) (b : Option Bool) :
    c.apply (some !c.determining) b = b := by
  cases c <;> rcases b with _ | _ | _ <;> rfl

theorem apply_neutral_right (c : Connective) (b : Option Bool) :
    c.apply b (some !c.determining) = b := by
  cases c <;> rcases b with _ | _ | _ <;> rfl

theorem apply_determining_left (c : Connective) (b : Option Bool) :
    c.apply (some c.determining) b = some c.determining := by
  simp [apply]

theorem apply_determining_right (c : Connective) (b : Option Bool) :
    c.apply b (some c.determining) = some c.determining := by
  simp [apply]

end Connective

/-! ## Two operands -/

namespace BinaryOp

/-- The typing rules of the binary operators, one to a constructor: the operator as it is written,
the one that is used on operands of the types `l` and `r`, and the type of the result. -/
inductive Rule (l r : Option Ty) : BinaryOp → BinaryOp → Option Ty → Prop where
  | arithmetic (op : Arithmetic) : op ≠ .power → Ty.bothNumeric l r = true →
      Rule l r (.arithmetic op) (.arithmetic op) (Ty.numericResult l r)
  | power : Ty.bothNumeric l r = true → Rule l r .power .power (Ty.powerResult l r)
  | join (op : BinaryOp) : op = .add ∨ op = .concat → Ty.joinsStrings l r = true →
      Rule l r op .concat (some .string)
  | relation (rel : Relation) : Ty.comparable rel.isEquality l r = true →
      Rule l r (.relation rel) (.relation rel) (some .boolean)
  | connective (c : Connective) : Ty.booleanOrUnknown l = true → Ty.booleanOrUnknown r = true →
      Rule l r (.connective c) (.connective c) (some .boolean)

variable {ctx : MathContext} {op used : BinaryOp} {l r t : Option Ty} {a b : Value}

theorem rule_of_resultType (h : op.resultType l r = .ok (used, t)) : Rule l r op used t := by
  simp only [resultType] at h
  split at h
  · rename_i hresult
    cases h
    split at hresult
    · split at hresult
      · rename_i hj
        cases hresult; exact .join _ (.inl rfl) hj
      · split at hresult
        · rename_i hn
          cases hresult; exact .arithmetic _ (by decide) hn
        · cases hresult
    · split at hresult
      · rename_i hn
        cases hresult; exact .power hn
      · cases hresult
    · split at hresult
      · rename_i _ hpower hn
        cases hresult; exact .arithmetic _ hpower hn
      · cases hresult
    · split at hresult
      · rename_i hj
        cases hresult; exact .join _ (.inr rfl) hj
      · cases hresult
    · split at hresult
      · rename_i hc
        cases hresult; exact .relation _ hc
      · cases hresult
    · split at hresult
      · rename_i hb
        cases hresult
        obtain ⟨hl, hr⟩ := Bool.and_eq_true .. |>.mp hb
        exact .connective _ hl hr
      · cases hresult
  · cases h

/-- A null operand is the result, except for the connectives. -/
theorem apply_null (hop : op.propagatesNull = true) (h : a.isNull = true ∨ b.isNull = true) :
    op.apply ctx a b = .ok .null := by
  have hnull : (op.propagatesNull && (a.isNull || b.isNull)) = true := by
    rcases h with h | h <;> simp [hop, h]
  simp only [apply.eq_def, hnull, if_true]

theorem apply_arithmetic_of_isNumber {arith : Arithmetic} (ha : a.IsNumber l) (hb : b.IsNumber r) :
    (arithmetic arith).apply ctx a b = arith.apply ctx a b := by
  cases ha <;> cases hb <;> simp [apply, Value.isNull, Value.isString]

theorem powerResult_eq_numericResult (ha : a.IsNumber l) (hb : b.IsNumber r) :
    Ty.powerResult l r = Ty.numericResult l r := by
  cases ha <;> cases hb <;> rfl

/-- On operands of the types that the checker has seen, an operator keeps to the type that the
checker has given it, and only division, remainder and power can fail. -/
theorem apply_yields (ht : op.resultType l r = .ok (op, t)) (ha : a.HasType l)
    (hb : b.HasType r) : Yields op.mayFail t (op.apply ctx a b) := by
  by_cases hnull : op.propagatesNull = true ∧ (a.isNull = true ∨ b.isNull = true)
  · rw [apply_null hnull.1 hnull.2]
    exact .ok (.null t)
  · have hproper : op.propagatesNull = true → a.isNull = false ∧ b.isNull = false := by
      intro hp
      simpa [hp] using hnull
    -- past the test for null, a value of a numeric type is a number
    have hnumbers : op.propagatesNull = true → Ty.bothNumeric l r = true →
        a.IsNumber l ∧ b.IsNumber r := by
      intro hp hn
      obtain ⟨hna, hnb⟩ := hproper hp
      obtain ⟨hl, hr⟩ := Bool.and_eq_true .. |>.mp hn
      exact ⟨(ha.number hl).resolve_left fun h => by simp [h, Value.isNull] at hna,
        (hb.number hr).resolve_left fun h => by simp [h, Value.isNull] at hnb⟩
    cases rule_of_resultType ht with
    | arithmetic arith _ hn =>
      obtain ⟨hl, hr⟩ := hnumbers rfl hn
      rw [apply_arithmetic_of_isNumber hl hr]
      exact arith.apply_yields ctx hl hr
    | power hn =>
      obtain ⟨hl, hr⟩ := hnumbers rfl hn
      rw [apply_arithmetic_of_isNumber hl hr, powerResult_eq_numericResult hl hr]
      exact Arithmetic.power.apply_yields ctx hl hr
    | join _ _ hj =>
      obtain ⟨hna, hnb⟩ := hproper rfl
      obtain ⟨hl, -⟩ := Bool.and_eq_true .. |>.mp hj
      obtain ⟨hl, hr⟩ := Bool.and_eq_true .. |>.mp hl
      rcases ha.string_inv hl with rfl | ⟨s, rfl⟩
      · cases hna
      · rcases hb.string_inv hr with rfl | ⟨u, rfl⟩
        · cases hnb
        · exact .ok (.string _)
    | relation rel hc =>
      obtain ⟨hna, hnb⟩ := hproper rfl
      obtain ⟨v, hv, hvt⟩ := Relation.apply_hasType hc ha hb hna hnb
      exact .inl ⟨v, by simpa [apply, hna, hnb] using hv, hvt⟩
    | connective c hl hr =>
      obtain ⟨x, -, hx⟩ := ha.truth hl
      obtain ⟨y, -, hy⟩ := hb.truth hr
      exact .inl ⟨.ofTruth (c.apply x y), by simp [apply, propagatesNull, hx, hy],
        Value.hasType_ofTruth _⟩

end BinaryOp

/-! ## Operators on literals

Literals stand for all values but arrays, and no operator makes an array of what is none. -/

theorem Literal.kind_toValue (u : Literal) : u.toValue.kind ≠ .array := by
  cases u <;> simp [toValue, Value.kind]

theorem Value.exists_literal {v : Value} (h : v.kind ≠ .array) (t : Option Ty) :
    ∃ u, Literal.ofValue? (v.castTo t) = some u := by
  cases v with
  | array items => exact absurd rfl h
  | integer n =>
    rw [castTo_integer]
    split <;> exact ⟨_, rfl⟩
  | boolean | decimal | string | date | null => exact ⟨_, by simp only [castTo]; rfl⟩

theorem Value.kind_ofTruth (b : Option Bool) : (ofTruth b).kind ≠ .array := by
  cases b <;> simp [ofTruth, kind]

theorem UnaryOp.kind_apply {op : UnaryOp} {v w : Value} (hv : v.kind ≠ .array)
    (h : op.apply v = .ok w) : w.kind ≠ .array := by
  cases v with
  | array => exact absurd rfl hv
  | boolean | integer | decimal | string | date | null =>
    cases op <;> cases h <;> simp [Value.kind]

theorem Arithmetic.kind_apply {ctx : MathContext} {op : Arithmetic} {a b w : Value}
    (h : op.apply ctx a b = .ok w) : w.kind ≠ .array := by
  unfold apply at h
  split at h
  · rename_i m n
    cases hr : op.onIntegers m n <;> rw [hr] at h <;> cases h
    simp [Value.kind]
  · split at h
    · rename_i m n _ _
      cases hr : op.onDecimals ctx m n <;> rw [hr] at h <;> cases h
      simp [Value.kind]
    · cases h

theorem Value.kind_concat {a b w : Value} (h : a.concat b = .ok w) : w.kind ≠ .array := by
  unfold concat at h
  split at h <;> cases h
  simp [kind]

theorem BinaryOp.kind_apply {ctx : MathContext} {op : BinaryOp} {a b w : Value}
    (h : op.apply ctx a b = .ok w) : w.kind ≠ .array := by
  unfold apply at h
  split at h
  · cases h
    simp [Value.kind]
  · split at h
    · split at h
      · exact Value.kind_concat h
      · exact Arithmetic.kind_apply h
    · exact Value.kind_concat h
    · rename_i r
      unfold Relation.apply at h
      split at h
      · cases h
      · obtain ⟨o, -, h⟩ := bind_eq_ok.mp h
        cases h
        simp [Value.kind]
    · obtain ⟨x, -, h⟩ := bind_eq_ok.mp h
      obtain ⟨y, -, h⟩ := bind_eq_ok.mp h
      cases h
      exact Value.kind_ofTruth _

end ComputedField
