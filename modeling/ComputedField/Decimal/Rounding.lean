import ComputedField.Decimal.Basic

/-!
# Rounding

Seven rounding modes over one primitive: `roundDiv mode n d` is the integer that `mode` picks among
the two neighbours of `n / d`. Rounding to a scale and rounding to a number of significant digits
are that division by a power of ten.

Decimals are those of a library, and three functions here say what it does: `rescale` is its change
to a scale in a rounding mode (`with_scale_round`), `withScale` the one without a mode, which cuts
off (`with_scale`), and the second branch of `round` its rounding to a context, which takes the new
scale from the digits that there are before (`round_decimal_ref`). `round`, `roundToScale` and
`truncate` decide when these are called and with what.
-/

set_option autoImplicit false

namespace ComputedField

attribute [local instance (2000)] instPowNat

/-- Which neighbour stands for a number that lies between two. -/
inductive RoundingMode where
  /-- away from zero -/
  | up
  /-- toward zero -/
  | down
  /-- toward positive infinity -/
  | ceiling
  /-- toward negative infinity -/
  | floor
  /-- the nearest; of two, the one away from zero -/
  | halfUp
  /-- the nearest; of two, the one toward zero -/
  | halfDown
  /-- the nearest; of two, the even one -/
  | halfEven
deriving DecidableEq, Repr, Inhabited

namespace RoundingMode

/-- All modes, by name. -/
def named : List (String × RoundingMode) :=
  [("up", .up), ("down", .down), ("ceiling", .ceiling), ("floor", .floor),
   ("half-up", .halfUp), ("half-down", .halfDown), ("half-even", .halfEven)]

def ofName? (name : String) : Option RoundingMode := named.lookup name

/-- Whether the magnitude of an inexact quotient moves up to its larger neighbour: `negative` is
the quotient's sign, `odd` tells whether the smaller neighbour is odd, and `part` compares the
dropped part with a half. -/
def grows (mode : RoundingMode) (negative odd : Bool) (part : Ordering) : Bool :=
  match mode with
  | up => true
  | down => false
  | ceiling => !negative
  | floor => negative
  | halfUp => part != .lt
  | halfDown => part == .gt
  | halfEven => part == .gt || (part == .eq && odd)

end RoundingMode

/-- The integer that `mode` picks for `n / d`; an exact quotient is itself. -/
def roundDiv (mode : RoundingMode) (n : Int) (d : Nat) : Int :=
  let q := n.natAbs / d
  let r := n.natAbs % d
  let grown := r != 0 && mode.grows (decide (n < 0)) (q % 2 == 1) (compare (2 * r) d)
  n.sign * ((if grown then q + 1 else q : Nat) : Int)

/-- Precision and rounding of decimal results. -/
structure MathContext where
  /-- how many significant digits a result keeps -/
  precision : Nat
  rounding : RoundingMode
  positive : 0 < precision
deriving DecidableEq, Repr

namespace MathContext

/-- 34 digits, half to even: the arithmetic of a 128-bit decimal. -/
def standard : MathContext := ⟨34, .halfEven, by decide⟩

instance : Inhabited MathContext := ⟨standard⟩

/-- A context needs at least one digit. -/
def ofPrecision? (precision : Nat) (rounding : RoundingMode) : Option MathContext :=
  if h : 0 < precision then some ⟨precision, rounding, h⟩ else none

end MathContext

namespace Decimal

/-- `x` at `scale`: padded with zeros, or rounded where digits have to go. Zero takes any scale.

A divisor with more than one digit more than the dividend leaves a part below a half whatever its
size, so the power of ten never needs to be larger than that. -/
def rescale (x : Decimal) (scale : Int) (mode : RoundingMode) : Decimal :=
  if x.scale ≤ scale then ⟨x.unscaledAt scale, scale⟩
  else
    let dropped := min (x.scale - scale).toNat (x.digits + 1)
    ⟨roundDiv mode x.unscaled (10 ^ dropped), scale⟩

/-- `x` at `scale`, padded or cut off toward zero. -/
def withScale (x : Decimal) (scale : Int) : Decimal := x.rescale scale .down

/-- `x` rounded to the precision of `ctx`; a number within the precision keeps its form.

A carry into a new digit stays: 9.995 to three digits is 10.00. -/
def round (ctx : MathContext) (x : Decimal) : Decimal :=
  if x.digits ≤ ctx.precision then x
  else x.rescale (x.scale + ctx.precision - x.digits) ctx.rounding

/-- `x` with at most `scale` fractional digits. A result of zero has scale zero. -/
def roundToScale (x : Decimal) (scale : Int) (mode : RoundingMode) : Decimal :=
  if x.scale ≤ scale then x
  else
    let rounded := x.rescale scale mode
    if rounded.isZero then zero else rounded

/-- The integer part, toward zero. -/
def truncate (x : Decimal) : Int := (x.withScale 0).unscaled

/-- The integer that `mode` picks for `x`. -/
def toInteger (x : Decimal) (mode : RoundingMode) : Int := (x.roundToScale 0 mode).truncate

end Decimal

end ComputedField
