import ComputedField.Environment.Basic
import ComputedField.Text.Casing

/-!
# The standard functions

Numbers, strings, dates and `coalesce`. An argument that is null makes the result null, except that
`coalesce` looks past it; so does an argument that is out of a function's range.
-/

set_option autoImplicit false

namespace ComputedField

attribute [local instance (2000)] instPowNat

/-- A function that leaves the host alone. -/
def Function.plain {σ : Type} (name : String) (parameters : List Ty) (returns : Ty)
    (result : List Value → Value) : Function σ :=
  ⟨name, parameters, returns, fun arguments host => (result arguments, host)⟩

namespace Library

/-! ## Numbers -/

def absInteger : List Value → Value
  | [.integer n] => .integer n.natAbs
  | _ => .null

def absDecimal : List Value → Value
  | [.decimal d] => .decimal d.abs
  | _ => .null

/-- Whether a number of places is small enough to round to: it fits a signed word of 64 bits. -/
def IsPlaces (n : Int) : Prop := -2 ^ (63 : Nat) ≤ n ∧ n < 2 ^ (63 : Nat)

instance (n : Int) : Decidable (IsPlaces n) := by
  unfold IsPlaces
  infer_instance

/-- Rounds to a number of fractional digits, a half away from zero. -/
def round : List Value → Value
  | [.decimal d, .integer places] =>
    if IsPlaces places then .decimal (d.roundToScale places .halfUp) else .null
  | _ => .null

def floor : List Value → Value
  | [.decimal d] => .integer (d.toInteger .floor)
  | _ => .null

def ceil : List Value → Value
  | [.decimal d] => .integer (d.toInteger .ceiling)
  | _ => .null

def minInteger : List Value → Value
  | [.integer a, .integer b] => .integer (min a b)
  | _ => .null

/-- The smaller decimal; the first, if they are the same number. -/
def minDecimal : List Value → Value
  | [.decimal a, .decimal b] => .decimal (if b.compare a = .lt then b else a)
  | _ => .null

def maxInteger : List Value → Value
  | [.integer a, .integer b] => .integer (max a b)
  | _ => .null

/-- The larger decimal; the second, if they are the same number. -/
def maxDecimal : List Value → Value
  | [.decimal a, .decimal b] => .decimal (if b.compare a = .lt then a else b)
  | _ => .null

/-! ## Strings -/

def length : List Value → Value
  | [.string s] => .integer s.length
  | _ => .null

def upper : List Value → Value
  | [.string s] => .string (Text.upper s)
  | _ => .null

def lower : List Value → Value
  | [.string s] => .string (Text.lower s)
  | _ => .null

/-- A number of characters: one that an unsigned word of 64 bits holds. -/
def count? (n : Int) : Option Nat := if 0 ≤ n ∧ n < 2 ^ (64 : Nat) then some n.toNat else none

/-- At most `count` characters from the one at `start`, which counts from zero. -/
def substring : List Value → Value
  | [.string s, .integer start, .integer count] =>
    match count? start, count? count with
    | some start, some count => .string (String.ofList ((s.toList.drop start).take count))
    | _, _ => .null
  | _ => .null

/-! ## Dates -/

/-- The date of a year, a month and a day; null if the calendar has none. -/
def date : List Value → Value
  | [.integer year, .integer month, .integer day] =>
    match Date.ofParts? year month.toNat day.toNat with
    | some d => .date d
    | none => .null
  | _ => .null

def year : List Value → Value
  | [.date d] => .integer d.year
  | _ => .null

def month : List Value → Value
  | [.date d] => .integer d.month
  | _ => .null

def day : List Value → Value
  | [.date d] => .integer d.day
  | _ => .null

/-- Days from the first date to the second. -/
def daysBetween : List Value → Value
  | [.date a, .date b] => .integer (Date.daysBetween a b)
  | _ => .null

/-! ## Nulls -/

/-- The first argument that is not null. -/
def coalesce (arguments : List Value) : Value :=
  (arguments.find? fun v => !v.isNull).getD .null

/-! ## All of them -/

def numeric {σ : Type} : List (Function σ) :=
  [.plain "abs" [.integer] .integer absInteger,
   .plain "abs" [.decimal] .decimal absDecimal,
   .plain "round" [.decimal, .integer] .decimal round,
   .plain "floor" [.decimal] .integer floor,
   .plain "ceil" [.decimal] .integer ceil,
   .plain "min" [.integer, .integer] .integer minInteger,
   .plain "min" [.decimal, .decimal] .decimal minDecimal,
   .plain "max" [.integer, .integer] .integer maxInteger,
   .plain "max" [.decimal, .decimal] .decimal maxDecimal]

def strings {σ : Type} : List (Function σ) :=
  [.plain "length" [.string] .integer length,
   .plain "upper" [.string] .string upper,
   .plain "lower" [.string] .string lower,
   .plain "substring" [.string, .integer, .integer] .string substring]

def dates {σ : Type} : List (Function σ) :=
  [.plain "date" [.integer, .integer, .integer] .date date,
   .plain "year" [.date] .integer year,
   .plain "month" [.date] .integer month,
   .plain "day" [.date] .integer day,
   .plain "days_between" [.date, .date] .integer daysBetween]

def nulls {σ : Type} : List (Function σ) :=
  [Ty.boolean, .integer, .decimal, .string, .date].map fun t =>
    .plain "coalesce" [t, t] t coalesce

/-- The standard functions. -/
def functions {σ : Type} : Functions σ := ⟨numeric ++ strings ++ dates ++ nulls⟩

end Library

/-- No variables, and the standard functions. -/
def Environment.standard {σ : Type} : Environment σ := ⟨.empty, Library.functions⟩

end ComputedField
