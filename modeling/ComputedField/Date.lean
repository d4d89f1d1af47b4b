import ComputedField.Decimal.Digits

/-!
# Calendar dates

Dates of the proleptic Gregorian calendar, with a year zero and negative years before it. The
calendar runs from the first day of the year -262143 to the last day of the year 262142.
-/

set_option autoImplicit false

namespace ComputedField

/-- Every fourth year has a leap day, except the full centuries that four hundred does not divide. -/
def isLeapYear (year : Int) : Bool :=
  year % 4 == 0 && (year % 100 != 0 || year % 400 == 0)

/-- Number of days of a month; an unknown month has none. -/
def daysInMonth (year : Int) (month : Nat) : Nat :=
  match month with
  | 2 => if isLeapYear year then 29 else 28
  | 4 | 6 | 9 | 11 => 30
  | 1 | 3 | 5 | 7 | 8 | 10 | 12 => 31
  | _ => 0

/-- The days that the calendar has. -/
def IsDate (year : Int) (month day : Nat) : Prop :=
  -262143 ≤ year ∧ year ≤ 262142 ∧ 1 ≤ day ∧ day ≤ daysInMonth year month

instance (year : Int) (month day : Nat) : Decidable (IsDate year month day) := by
  unfold IsDate
  infer_instance

/-- A day of the calendar. -/
structure Date where
  year : Int
  month : Nat
  day : Nat
  isDate : IsDate year month day
deriving DecidableEq, Repr

namespace Date

/-- The date with these parts, if the calendar has it. -/
def ofParts? (year : Int) (month day : Nat) : Option Date :=
  if h : IsDate year month day then some ⟨year, month, day, h⟩ else none

/-- Orders by time. -/
def compare (a b : Date) : Ordering :=
  (Ord.compare a.year b.year).then
    ((Ord.compare a.month b.month).then (Ord.compare a.day b.day))

/-- Days of the months before `month`. -/
def daysBeforeMonth (year : Int) (month : Nat) : Nat :=
  (List.range (month - 1)).foldl (fun days i => days + daysInMonth year (i + 1)) 0

/-- Days from the first of January of the year one, which is day zero. -/
def dayNumber (d : Date) : Int :=
  let past := d.year - 1
  365 * past + past / 4 - past / 100 + past / 400
    + ((daysBeforeMonth d.year d.month + d.day - 1 : Nat) : Int)

/-- Days from `a` to `b`, negative if `b` is earlier. -/
def daysBetween (a b : Date) : Int := b.dayNumber - a.dayNumber

/-- `n` with zeros before it, up to `width` digits. -/
def padded (width n : Nat) : String :=
  let ds := digitChars n
  String.ofList (List.replicate (width - ds.length) '0' ++ ds)

/-- Year, month and day with hyphens. A year of more than four digits, or before zero, has a sign. -/
def text (d : Date) : String :=
  let sign := if d.year < 0 then "-" else if 9999 < d.year then "+" else ""
  sign ++ padded 4 d.year.natAbs ++ "-" ++ padded 2 d.month ++ "-" ++ padded 2 d.day

end Date

end ComputedField
