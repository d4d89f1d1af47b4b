import ComputedField.Date
import ComputedField.Decimal.Power
import ComputedField.Ty

/-!
# Values

What an expression yields, a variable holds and a function takes. `null` is a value like the
others. Arrays hold values of any kind; arrays of arrays form the higher dimensions.
-/

set_option autoImplicit false

namespace ComputedField

/-- What kind of value a value is. -/
inductive Kind where
  | boolean
  | integer
  | decimal
  | string
  | date
  | array
  | null
deriving DecidableEq, Repr, Inhabited

def Kind.name : Kind → String
  | boolean => "boolean"
  | integer => "integer"
  | decimal => "decimal"
  | string => "string"
  | date => "date"
  | array => "array"
  | null => "null"

inductive Value where
  | boolean (b : Bool)
  | integer (n : Int)
  | decimal (d : Decimal)
  | string (s : String)
  | date (d : Date)
  | array (items : List Value)
  | null
deriving Repr, Inhabited

namespace Value

def kind : Value → Kind
  | boolean _ => .boolean
  | integer _ => .integer
  | decimal _ => .decimal
  | string _ => .string
  | date _ => .date
  | array _ => .array
  | null => .null

def isNull : Value → Bool
  | null => true
  | _ => false

def isString : Value → Bool
  | string _ => true
  | _ => false

/-- A truth value that may be unknown. -/
def ofTruth : Option Bool → Value
  | some b => boolean b
  | none => null

/-- The value as a decimal, integers widened; nothing for values that are no numbers. -/
def toDecimal? : Value → Option Decimal
  | integer n => some (Decimal.ofInt n)
  | decimal d => some d
  | _ => none

/-! ## Text -/

mutual

/-- The value for the reader: strings as they are, arrays in brackets. -/
def text : Value → String
  | boolean b => if b then "true" else "false"
  | integer n => integerText n
  | decimal d => d.text
  | string s => s
  | date d => d.text
  | array items => "[" ++ textItems items ++ "]"
  | null => "null"

/-- The items with commas between them. -/
def textItems : List Value → String
  | [] => ""
  | [v] => v.text
  | v :: vs => v.text ++ ", " ++ textItems vs

end

/-! ## Sameness -/

mutual

/-- Sameness of values: decimals by number, all else by form. No integer is the same as a
decimal. -/
def same : Value → Value → Bool
  | boolean a, boolean b => a == b
  | integer a, integer b => a == b
  | decimal a, decimal b => a.sameNumber b
  | string a, string b => a == b
  | date a, date b => a == b
  | array a, array b => sameItems a b
  | null, null => true
  | _, _ => false

def sameItems : List Value → List Value → Bool
  | [], [] => true
  | a :: as, b :: bs => a.same b && sameItems as bs
  | _, _ => false

end

/-! ## The implicit cast -/

mutual

/-- The cast to a static type: integers become decimals where the type says so, through all
dimensions of an array. Everything else stays as it is. -/
def castTo : Value → Option Ty → Value
  | integer n, some (.scalar .decimal) => decimal (Decimal.ofInt n)
  | array items, some (.array .decimal depth) =>
    array (castItems items (Ty.array .decimal depth).element?)
  | v, _ => v

def castItems : List Value → Option Ty → List Value
  | [], _ => []
  | v :: vs, t => v.castTo t :: castItems vs t

end

end Value

/-! ## Literals -/

/-- A value that can be written down: any but an array. -/
inductive Literal where
  | boolean (b : Bool)
  | integer (n : Int)
  | decimal (d : Decimal)
  | string (s : String)
  | date (d : Date)
  | null
deriving DecidableEq, Repr, Inhabited

namespace Literal

/-- The type of a literal; unknown for null. -/
def type? : Literal → Option Ty
  | boolean _ => some .boolean
  | integer _ => some .integer
  | decimal _ => some .decimal
  | string _ => some .string
  | date _ => some .date
  | null => none

def toValue : Literal → Value
  | boolean b => .boolean b
  | integer n => .integer n
  | decimal d => .decimal d
  | string s => .string s
  | date d => .date d
  | null => .null

/-- The literal for a value; arrays have none. -/
def ofValue? : Value → Option Literal
  | .boolean b => some (boolean b)
  | .integer n => some (integer n)
  | .decimal d => some (decimal d)
  | .string s => some (string s)
  | .date d => some (date d)
  | .null => some null
  | .array _ => none

/-- Sameness of literals is that of their values. -/
def same (a b : Literal) : Bool := a.toValue.same b.toValue

def isNull : Literal → Bool
  | null => true
  | _ => false

/-- Below zero, so that the literal is written with a sign. -/
def isNegative : Literal → Bool
  | integer n => decide (n < 0)
  | decimal d => d.isNegative
  | _ => false

theorem ofValue?_toValue (l : Literal) : ofValue? l.toValue = some l := by
  cases l <;> rfl

end Literal

end ComputedField
