import ComputedField.Operator
import ComputedField.Ty

/-!
# Typing rules

Which types the operators take and which type they give, where a value may be stored, and what the
branches of a conditional have in common. An unknown type passes every rule.
-/

set_option autoImplicit false

namespace ComputedField

/-- A set of types that an operator takes. -/
inductive OperandClass where
  | number
  | boolean
  | numberOrString
  | equatable
  | orderable
deriving DecidableEq, Repr

def OperandClass.describe : OperandClass → String
  | number => "'number'"
  | boolean => "'boolean'"
  | numberOrString => "'number' or 'string'"
  | equatable => "'boolean', 'number', 'string' or 'date' of the same kind"
  | orderable => "'number', 'string' or 'date' of the same kind"

namespace Ty

/-- Strings on both sides, of which one at least is known to be a string. -/
def joinsStrings (left right : Option Ty) : Bool :=
  stringOrUnknown left && stringOrUnknown right && (left.isSome || right.isSome)

def bothNumeric (left right : Option Ty) : Bool := numericOrUnknown left && numericOrUnknown right

/-- A power of integers is an integer; any other known combination gives a decimal. -/
def powerResult (left right : Option Ty) : Option Ty :=
  if left = none ∧ right = none then none
  else if left = some integer ∧ right = some integer then some integer
  else some decimal

/-- The scalars with an order, and truth values if only sameness is asked for. -/
def isComparable (equality : Bool) (t : Ty) : Bool :=
  t == decimal || t == string || t == date || (equality && t == boolean)

/-- Both sides can be compared, and are of one kind where both are known. -/
def comparable (equality : Bool) (left right : Option Ty) : Bool :=
  let l := left.map widened
  let r := right.map widened
  knownIs (isComparable equality) l && knownIs (isComparable equality) r
    && (l.isNone || r.isNone || l == r)

/-- A value of type `value` may be stored where `place` is asked for. -/
def assignable (place value : Option Ty) : Bool :=
  match place, value with
  | none, _ | _, none => true
  | some p, some v => p == v || (p == decimal && v == integer)

/-- The type of a conditional with these branches, if they agree on one: that of the branch that
is known, widened where numbers mix. -/
def branchType? (onTrue onFalse : Option Ty) : Option (Option Ty) :=
  match onTrue, onFalse with
  | none, t | t, none => some t
  | some t, some u =>
    if t = u then some (some t)
    else if t.isNumeric && u.isNumeric then some (some decimal)
    else none

end Ty

/-- What a binary operator asks of its operands. -/
def BinaryOp.operandClass : BinaryOp → OperandClass
  | arithmetic .add | concat => .numberOrString
  | arithmetic _ => .number
  | relation r => if r.isEquality then .equatable else .orderable
  | connective _ => .boolean

/-- The operator to use on operands of these types, and the type of the result. Addition of strings
turns into concatenation. -/
def BinaryOp.resultType (op : BinaryOp) (left right : Option Ty) :
    Except OperandClass (BinaryOp × Option Ty) :=
  let result? : Option (BinaryOp × Option Ty) :=
    match op with
    | arithmetic .add =>
      if Ty.joinsStrings left right then some (concat, some .string)
      else if Ty.bothNumeric left right then some (op, Ty.numericResult left right)
      else none
    | arithmetic .power =>
      if Ty.bothNumeric left right then some (op, Ty.powerResult left right) else none
    | arithmetic _ =>
      if Ty.bothNumeric left right then some (op, Ty.numericResult left right) else none
    | concat => if Ty.joinsStrings left right then some (op, some .string) else none
    | relation r =>
      if Ty.comparable r.isEquality left right then some (op, some .boolean) else none
    | connective _ =>
      if Ty.booleanOrUnknown left && Ty.booleanOrUnknown right then some (op, some .boolean)
      else none
  match result? with
  | some result => .ok result
  | none => .error op.operandClass

/-- The type of a unary operator's result. -/
def UnaryOp.resultType (op : UnaryOp) (operand : Option Ty) : Except OperandClass (Option Ty) :=
  match op with
  | group => .ok operand
  | positive | negative => if Ty.numericOrUnknown operand then .ok operand else .error .number
  | not => if Ty.booleanOrUnknown operand then .ok (some .boolean) else .error .boolean

end ComputedField
