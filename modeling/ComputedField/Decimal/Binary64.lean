import ComputedField.Decimal.Rounding

/-!
# Binary floating point

How decimals pass through binary64 numbers: `nearest` is the double next to a fraction, and
`shortest` the decimal with the fewest digits among those that read back as a given double. Both
work on exact natural numbers.
-/

set_option autoImplicit false

namespace ComputedField

attribute [local instance (2000)] instPowNat

namespace Binary64

/-! ## From fractions to doubles -/

/-- `⌊log₂ (n / d)⌋` for positive `n` and `d`. -/
def floorLog2 (n d : Nat) : Int :=
  let guess : Int := (n.log2 : Int) - d.log2
  if d * 2 ^ guess.toNat ≤ n * 2 ^ (-guess).toNat then guess else guess - 1

/-- The bit of a significand that is not stored; below it are the stored ones. -/
def hiddenBit : Nat := 2 ^ (52 : Nat)

/-- The bit that is set in negative doubles. -/
def signBit : Nat := 2 ^ (63 : Nat)

/-- The double next to `n / d`, of two the one with the even significand. The significand has 53
bits; below the smallest normal double it has fewer, and above the largest one the result is
infinite. -/
def nearest (n d : Nat) : Float :=
  if n = 0 then 0
  else
    let exponent := max (floorLog2 n d - 52) (-1074)
    let significand :=
      (roundDiv .halfEven (n * 2 ^ (-exponent).toNat) (d * 2 ^ exponent.toNat)).toNat
    let (significand, exponent) :=
      if significand = 2 * hiddenBit then (hiddenBit, exponent + 1) else (significand, exponent)
    let bits :=
      if significand < hiddenBit then significand
      else if exponent > 971 then 0x7ff * hiddenBit
      else (exponent + 1075).toNat * hiddenBit + (significand - hiddenBit)
    Float.ofBits (UInt64.ofNat bits)

/-- `base ^ n` by squaring, each product rounded. -/
def powNat (base : Float) (n : Nat) : Float :=
  go base 1 n
where
  go (square acc : Float) (n : Nat) : Float :=
    if n = 0 then acc
    else go (square * square) (if n % 2 = 1 then acc * square else acc) (n / 2)
  termination_by n
  decreasing_by omega

/-- About how many digits the positive `n` has: `⌊log₁₀ 2 ^ (b + 1)⌋`, where `b` is its number of
bits. -/
def roughDigitCount (n : Nat) : Nat := digitCount (2 ^ (n.log2 + 2)) - 1

/-- The decimal cut to its leading digits: trailing ones go nineteen at a time, as long as about
twenty-five remain. -/
def leading (x : Decimal) : Decimal :=
  let dropped := (roughDigitCount x.unscaled.natAbs - 25) / 19 * 19
  ⟨x.unscaled.tdiv (10 ^ dropped), x.scale - dropped⟩

/-- The double for a decimal. An integer of scale zero becomes the nearest one. Another decimal
keeps its leading digits only; if these have a fractional part, the nearest double stands for them,
else the one nearest to the digits is multiplied by a power of ten. -/
def ofDecimal (x : Decimal) : Float :=
  let x := if x.scale = 0 then x else leading x
  let magnitude :=
    if x.isZero then 0
    else if x.scale ≤ 0 then nearest x.unscaled.natAbs 1 * powNat 10 (-x.scale).toNat
    else nearest x.unscaled.natAbs (10 ^ x.scale.toNat)
  if x.isNegative then -magnitude else magnitude

/-! ## From doubles to decimals -/

/-- The numbers that are rounded to the double `significand · 2 ^ exponent`. The value and the two
ends are measured in quarters of the last bit; the ends belong to the interval if the significand
is even. -/
structure Interval where
  low : Nat
  value : Nat
  high : Nat
  closed : Bool
  exponent : Int
deriving Repr

/-- The rounding interval of `significand · 2 ^ exponent`. Below a power of two the next double is
only half as far away. -/
def Interval.ofDouble (significand : Nat) (exponent : Int) : Interval where
  low := if significand = hiddenBit ∧ -1074 < exponent then 4 * significand - 1
    else 4 * significand - 2
  value := 4 * significand
  high := 4 * significand + 2
  closed := significand % 2 == 0
  exponent := exponent - 2

/-- Compares `d · 10 ^ k` with `n · 2 ^ e`. -/
def compareScaled (d : Nat) (k : Int) (n : Nat) (e : Int) : Ordering :=
  compare (d * 10 ^ k.toNat * 2 ^ (-e).toNat) (n * 2 ^ e.toNat * 10 ^ (-k).toNat)

/-- Whether `d · 10 ^ k` reads back as the double. -/
def Interval.holds (i : Interval) (d : Nat) (k : Int) : Bool :=
  let low := compareScaled d k i.low i.exponent
  let high := compareScaled d k i.high i.exponent
  (low == .gt || (i.closed && low == .eq)) && (high == .lt || (i.closed && high == .eq))

/-- The value as a fraction. -/
def Interval.fraction (i : Interval) : Nat × Nat :=
  (i.value * 2 ^ i.exponent.toNat, 2 ^ (-i.exponent).toNat)

/-- `⌊log₁₀ (n / d)⌋` for positive `n` and `d`. -/
def floorLog10 (n d : Nat) : Int :=
  let guess : Int := (digitCount n : Int) - digitCount d
  if d * 10 ^ guess.toNat ≤ n * 10 ^ (-guess).toNat then guess else guess - 1

/-- The multiple of `10 ^ k` next to the value that reads back, if one of the two neighbours does.
Of two that do, the nearer one, and the larger one if they are equally near. -/
def Interval.onGrid (i : Interval) (k : Int) : Option Nat :=
  let (n, d) := i.fraction
  let below := n * 10 ^ (-k).toNat / (d * 10 ^ k.toNat)
  match i.holds below k, i.holds (below + 1) k with
  | true, true =>
    if compareScaled (2 * below + 1) k (2 * i.value) i.exponent == .gt then some below
    else some (below + 1)
  | true, false => some below
  | false, true => some (below + 1)
  | false, false => none

/-- The decimal with the fewest digits that reads back as `significand · 2 ^ exponent`, for a
positive significand. A whole number has scale zero. -/
def shortest (significand : Nat) (exponent : Int) : Decimal :=
  let i := Interval.ofDouble significand exponent
  let (n, d) := i.fraction
  let top := floorLog10 n d
  let found := (List.range 17).findSome? fun (places : Nat) =>
    let k : Int := top - places
    (i.onGrid k).map fun digits => (digits, k)
  match found with
  | none => Decimal.zero
  | some (digits, k) =>
    let (m, zeros) := stripZeros digits
    let k : Int := k + zeros
    if 0 ≤ k then ⟨m * 10 ^ k.toNat, 0⟩ else ⟨m, -k⟩

/-- The shortest decimal that reads back as a finite double; nothing for the others. -/
def toDecimal? (x : Float) : Option Decimal :=
  let bits := x.toBits.toNat
  let magnitude := bits % signBit
  let biased : Nat := magnitude / hiddenBit
  let fraction : Nat := magnitude % hiddenBit
  if biased = 0x7ff then none
  else if magnitude = 0 then some Decimal.zero
  else
    let d := if biased = 0 then shortest fraction (-1074)
      else shortest (hiddenBit + fraction) ((biased : Int) - 1075)
    some (if bits < signBit then d else ⟨-d.unscaled, d.scale⟩)

end Binary64

end ComputedField
