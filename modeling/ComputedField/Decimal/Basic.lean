import ComputedField.Decimal.Digits

/-!
# Decimal numbers

A `Decimal` is an unscaled integer and a scale, of any size. `12.50` is `⟨1250, 2⟩` and differs as
a representation from `⟨125, 1⟩`, though both denote one number; `compare` looks at the number.
-/

set_option autoImplicit false

namespace ComputedField

attribute [local instance (2000)] instPowNat

/-- The number `unscaled · 10 ^ (-scale)`. A negative scale stands for trailing zeros. -/
structure Decimal where
  unscaled : Int
  scale : Int
deriving DecidableEq, Repr, Inhabited

namespace Decimal

/-- The integer `n`, without fractional digits. -/
def ofInt (n : Int) : Decimal := ⟨n, 0⟩

def zero : Decimal := ofInt 0

def one : Decimal := ofInt 1

def isZero (x : Decimal) : Bool := x.unscaled == 0

def isNegative (x : Decimal) : Bool := decide (x.unscaled < 0)

/-- How many digits the unscaled integer has; zero has one. -/
def digits (x : Decimal) : Nat := digitCount x.unscaled.natAbs

/-- The same number with `k` more fractional digits. -/
def pad (x : Decimal) (k : Nat) : Decimal := ⟨x.unscaled * 10 ^ k, x.scale + k⟩

/-- The unscaled integer that `x` has at the larger of its own scale and `scale`. -/
def unscaledAt (x : Decimal) (scale : Int) : Int := x.unscaled * 10 ^ (scale - x.scale).toNat

/-- Orders by numeric value: both sides are brought to the larger scale first. -/
def compare (a b : Decimal) : Ordering :=
  Ord.compare (a.unscaledAt b.scale) (b.unscaledAt a.scale)

/-- Equality of the numbers, whatever the scales. -/
def sameNumber (a b : Decimal) : Bool := a.compare b == .eq

/-- The same number with all trailing zeros of the unscaled integer removed; zero is `⟨0, 0⟩`. -/
def normalized (x : Decimal) : Decimal :=
  if x.isZero then zero
  else
    let (m, k) := stripZeros x.unscaled.natAbs
    ⟨x.unscaled.sign * m, x.scale - k⟩

/-- One itself, written with at most 38 fractional zeros. -/
def isOne (x : Decimal) : Bool :=
  decide (0 ≤ x.scale ∧ x.scale ≤ 38 ∧ x.unscaled = 10 ^ x.scale.toNat)

/-- No fractional part. -/
def isWhole (x : Decimal) : Bool :=
  x.isZero || decide (x.scale ≤ 0) || x.unscaled.natAbs % 10 ^ x.scale.toNat == 0

/-! ## Text -/

/-- Positional notation of `n · 10 ^ (-scale)`, always with a point and a digit after it. -/
def plainDigits (n : Nat) (scale : Int) : List Char :=
  if scale ≤ 0 then
    digitChars n ++ List.replicate (-scale).toNat '0' ++ ['.', '0']
  else
    let places := scale.toNat
    let ds := digitChars n
    let padded := List.replicate (places + 1 - ds.length) '0' ++ ds
    padded.take (padded.length - places) ++ '.' :: padded.drop (padded.length - places)

/-- Positional notation, never an exponent, always with a point. -/
def text (x : Decimal) : String :=
  (if x.isNegative then "-" else "") ++ String.ofList (plainDigits x.unscaled.natAbs x.scale)

/-- Reads a digit run with one point in it; a run that ends with the point has one more digit, a
zero, behind it. -/
def ofDigits? (cs : List Char) : Option Decimal := do
  let whole := cs.takeWhile Char.isDigit
  let fraction := cs.drop (whole.length + 1)
  let fraction := if fraction.isEmpty then ['0'] else fraction
  let n ← digitsValue? (whole ++ fraction)
  if cs[whole.length]? = some '.' then some ⟨n, fraction.length⟩ else none

end Decimal

end ComputedField
