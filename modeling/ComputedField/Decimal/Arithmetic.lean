import ComputedField.Decimal.Rounding

/-!
# Decimal arithmetic

Sums, differences and products are exact, and their scale is part of the result. A quotient is
rounded once: it is computed with more digits than the precision and one digit that tells whether
anything is left over, so that the rounding decision is that of the exact quotient as long as the
digits can be counted.
-/

set_option autoImplicit false

namespace ComputedField

attribute [local instance (2000)] instPowNat

namespace Decimal

def neg (x : Decimal) : Decimal := ⟨-x.unscaled, x.scale⟩

def abs (x : Decimal) : Decimal := ⟨x.unscaled.natAbs, x.scale⟩

/-- The sum at the larger scale. Next to a zero the other operand is the result, padded toward the
zero's scale by at most fifteen digits. -/
def add (a b : Decimal) : Decimal :=
  if b.isZero then a.pad (min (b.scale - a.scale).toNat 15)
  else if a.isZero then b.pad (min (a.scale - b.scale).toNat 15)
  else ⟨a.unscaledAt b.scale + b.unscaledAt a.scale, max a.scale b.scale⟩

/-- The difference at the larger scale. -/
def sub (a b : Decimal) : Decimal :=
  ⟨a.unscaledAt b.scale - b.unscaledAt a.scale, max a.scale b.scale⟩

/-- The product at the sum of the scales. Next to a one the other operand is the result, without
its trailing zeros. -/
def mul (a b : Decimal) : Decimal :=
  if a.isOne then b.normalized
  else if b.isOne then a.normalized
  else ⟨a.unscaled * b.unscaled, a.scale + b.scale⟩

/-- `x` without the trailing zeros that go beyond `preferred` fractional digits. -/
def trimTo (x : Decimal) (preferred : Int) : Decimal :=
  x.withScale (max x.normalized.scale (min preferred x.scale))

/-! ### Quotients

A quotient counts its scale in a signed word of 64 bits and its digits in an unsigned one. -/

def maxScale : Int := 0x7fffffffffffffff

def minScale : Int := -0x8000000000000000

/-- The scale nearest to `s`. -/
def clampScale (s : Int) : Int := max minScale (min s maxScale)

/-- The scale that a quotient has if no digits are needed behind it. -/
def preferredScale (a b : Decimal) : Int := clampScale (a.scale - b.scale)

/-- By how many digits the dividend is lengthened. The quotient is to have two digits more than the
precision; their count wraps around where the word ends. -/
def guardShift (ctx : MathContext) (a b : Decimal) : Nat :=
  let wanted := (ctx.precision + 2 + b.digits) % UInt64.size
  min (wanted - a.digits) maxScale.toNat

/-- The quotient, to so many digits that rounding it to `ctx` is rounding the exact quotient: two
digits beyond the precision and, if a remainder is left, one more digit away from zero. -/
def guardedQuotient (ctx : MathContext) (a b : Decimal) : Decimal :=
  let shift := guardShift ctx a b
  let n := a.unscaled * 10 ^ shift
  let q := n.tdiv b.unscaled
  let scale := clampScale (preferredScale a b + shift)
  if n.tmod b.unscaled = 0 then ⟨q, scale⟩
  else ⟨q * 10 + n.sign * b.unscaled.sign, clampScale (scale + 1)⟩

/-- The quotient rounded to `ctx`, with no more trailing zeros than the scale of `a` less that of
`b` asks for; nothing if `b` is zero. -/
def divide? (ctx : MathContext) (a b : Decimal) : Option Decimal :=
  if b.isZero then none
  else if a.isZero then some ⟨0, max (preferredScale a b) 0⟩
  else some (((guardedQuotient ctx a b).round ctx).trimTo (preferredScale a b))

end Decimal

/-! ## Remainders -/

/-- Why there is no remainder. -/
inductive ModuloFault where
  | divisionByZero
  | notPositive
deriving DecidableEq, Repr

/-- The remainder of `n` modulo a positive `m`, never negative. -/
def positiveModulo (n m : Int) : Except ModuloFault Int :=
  if m = 0 then .error .divisionByZero
  else if m < 0 then .error .notPositive
  else .ok (n % m)

end ComputedField
