import ComputedField.Value.Fault

/-!
# Operators on values

What the operators do with operands that have been evaluated. Constant folding and evaluation both
go through these functions, so that folding cannot differ from evaluating.
-/

set_option autoImplicit false

namespace ComputedField

namespace Value

/-- The value as a truth value that may be unknown. -/
def truth : Value → Except EvalFault (Option Bool)
  | boolean b => .ok (some b)
  | null => .ok none
  | v => .error (.kind (.notBoolean v.text))

/-- Orders two values of one kind; numbers by value, whether integer or decimal. -/
def compare (a b : Value) : Except EvalFault Ordering :=
  match a, b with
  | integer m, integer n => .ok (Ord.compare m n)
  | boolean m, boolean n => .ok (Ord.compare m n)
  | string m, string n => .ok (Ord.compare m n)
  | date m, date n => .ok (m.compare n)
  | _, _ =>
    match a.toDecimal?, b.toDecimal? with
    | some m, some n => .ok (m.compare n)
    | _, _ => .error (.kind (.operands .comparison a.kind b.kind))

def concat (a b : Value) : Except EvalFault Value :=
  match a, b with
  | string m, string n => .ok (string (m ++ n))
  | _, _ => .error (.kind (.operands .concatenation a.kind b.kind))

end Value

namespace Arithmetic

/-- Exact arithmetic on integers; division is toward zero. -/
def onIntegers (op : Arithmetic) (m n : Int) : Except EvalFault Int :=
  match op with
  | add => .ok (m + n)
  | subtract => .ok (m - n)
  | multiply => .ok (m * n)
  | divide => if n = 0 then .error .divisionByZero else .ok (m.tdiv n)
  | modulo => (positiveModulo m n).mapError .ofModulo
  | power => (integerPower m n).mapError .ofPower

/-- Arithmetic on decimals, rounded to `ctx`. A remainder is that of the integer parts and is not
rounded. -/
def onDecimals (ctx : MathContext) (op : Arithmetic) (a b : Decimal) : Except EvalFault Decimal :=
  match op with
  | add => .ok ((a.add b).round ctx)
  | subtract => .ok ((a.sub b).round ctx)
  | multiply => .ok ((a.mul b).round ctx)
  | divide =>
    match Decimal.divide? ctx a b with
    | some q => .ok q
    | none => .error .divisionByZero
  | modulo => ((positiveModulo a.truncate b.truncate).mapError .ofModulo).map Decimal.ofInt
  | power => (Decimal.power ctx a b).mapError .ofPower

/-- Arithmetic on values: integers stay integers, a decimal on either side makes both decimal. -/
def apply (ctx : MathContext) (op : Arithmetic) (a b : Value) : Except EvalFault Value :=
  match a, b with
  | .integer m, .integer n => (op.onIntegers m n).map .integer
  | _, _ =>
    match a.toDecimal?, b.toDecimal? with
    | some m, some n => (op.onDecimals ctx m n).map .decimal
    | _, _ => .error (.kind (.operands (.arithmetic op) a.kind b.kind))

end Arithmetic

/-- The truth of a relation between two values. Truth values can be the same but have no order. -/
def Relation.apply (r : Relation) (a b : Value) : Except EvalFault Value := do
  if !r.isEquality && a.kind == .boolean then
    throw (.kind .unorderedBooleans)
  let ordering ← a.compare b
  return .boolean (r.holds ordering)

/-- Applies an operator to two values. Null makes every result null but that of a connective. -/
def BinaryOp.apply (ctx : MathContext) (op : BinaryOp) (a b : Value) : Except EvalFault Value :=
  if op.propagatesNull && (a.isNull || b.isNull) then .ok .null
  else
    match op with
    | arithmetic op =>
      if op == .add && a.isString && b.isString then a.concat b else op.apply ctx a b
    | concat => a.concat b
    | relation r => r.apply a b
    | connective c => do
      let left ← a.truth
      let right ← b.truth
      return .ofTruth (c.apply left right)

/-- Applies an operator to one value; null stays null. -/
def UnaryOp.apply (op : UnaryOp) (v : Value) : Except EvalFault Value :=
  match op, v with
  | _, .null => .ok .null
  | group, v => .ok v
  | positive, .integer n => .ok (.integer n)
  | positive, .decimal d => .ok (.decimal d)
  | negative, .integer n => .ok (.integer (-n))
  | negative, .decimal d => .ok (.decimal d.neg)
  | not, .boolean b => .ok (.boolean !b)
  | op, v => .error (.kind (.operand op v.kind))

end ComputedField
