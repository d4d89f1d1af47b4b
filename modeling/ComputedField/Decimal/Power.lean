import ComputedField.Decimal.Arithmetic
import ComputedField.Decimal.Binary64

/-!
# Powers

Whole exponents give exact powers, rounded once; a negative one takes the reciprocal. Other
exponents go through binary64 and come back as the shortest decimal, so their powers carry about
sixteen digits.

The exact power is one that could be rounded (`powi`), at an accuracy at which it never is. In which
order its products are taken does not matter for the result then.
-/

set_option autoImplicit false

namespace ComputedField

attribute [local instance (2000)] instPowNat

/-- Why there is no power. -/
inductive PowerFault where
  /-- an integer base with a negative exponent -/
  | negativeExponent
  /-- an exponent beyond `maxExponent` -/
  | tooLarge
  /-- no real result -/
  | undefined
  /-- zero to a negative power -/
  | divisionByZero
deriving DecidableEq, Repr

/-- The largest exponent of an exact power. -/
def maxExponent : Nat := 100000

/-- The exact power of an integer. -/
def integerPower (base exponent : Int) : Except PowerFault Int :=
  if exponent < 0 then .error .negativeExponent
  else if maxExponent < exponent.toNat then .error .tooLarge
  else .ok (base ^ exponent.toNat)

namespace Decimal

/-- The product at the sum of the scales, rounded to `ctx`. -/
def times (ctx : MathContext) (a b : Decimal) : Decimal :=
  round ctx ⟨a.unscaled * b.unscaled, a.scale + b.scale⟩

/-- `acc` times the power `n` of `x`, which is not the zeroth, by repeated squaring. -/
def squaring (ctx : MathContext) (x acc : Decimal) (n : Nat) : Decimal :=
  if n ≤ 1 then times ctx x acc
  else if n % 2 = 0 then squaring ctx (times ctx x x) acc (n / 2)
  else squaring ctx (times ctx x x) (times ctx x acc) (n / 2)
termination_by n

/-- A power with an accuracy: every product on the way is rounded to `ctx`. A base that equals zero
or one is its own power, with its scale. -/
def powi (ctx : MathContext) (x : Decimal) (n : Nat) : Decimal :=
  if x.isZero ∨ x.normalized = one then x else squaring ctx x one n

/-- The power without rounding. The accuracy is enough for all its digits, whose count is exact here;
in a word of 64 bits it would be the largest word for a base of more than `10 ^ 14` digits. -/
def exactPower (base : Decimal) : Nat → Decimal
  | 0 => one
  | 1 => base
  | n => base.powi ⟨base.digits * n + 1, .down, Nat.succ_pos _⟩ n

/-- The power in binary floating point, read back as its shortest decimal; nothing unless it is
finite. -/
def realPower? (base exponent : Decimal) : Option Decimal :=
  Binary64.toDecimal? (Float.pow (Binary64.ofDecimal base) (Binary64.ofDecimal exponent))

/-- `base` to the power of a whole number `e`, rounded to `ctx`. -/
def wholePower (ctx : MathContext) (base : Decimal) (e : Int) : Except PowerFault Decimal :=
  if maxExponent < e.natAbs then .error .tooLarge
  else
    let exact := base.exactPower e.natAbs
    if e < 0 then
      match divide? ctx one exact with
      | some reciprocal => .ok reciprocal
      | none => .error .divisionByZero
    else .ok (exact.round ctx)

/-- `base` to the power of `exponent`, rounded to `ctx`. -/
def power (ctx : MathContext) (base exponent : Decimal) : Except PowerFault Decimal :=
  if exponent.isWhole then wholePower ctx base exponent.truncate
  else
    match realPower? base exponent with
    | some result => .ok (result.round ctx)
    | none => .error .undefined

end Decimal

end ComputedField
