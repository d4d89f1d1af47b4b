import ComputedField.Declarations
import ComputedField.Expr.Basic
import ComputedField.Typing.Rules

/-!
# Checking

`check` gives every node of an expression its static type, or reports the first node that breaks a
rule. Children come before their parents and the left before the right; only the condition of a
conditional is judged before its branches are looked at.
-/

set_option autoImplicit false

namespace ComputedField

/-- Which rule an expression breaks. -/
inductive TypeFault where
  | operands (op : BinaryOp) (expected : OperandClass)
  | operand (op : UnaryOp) (expected : OperandClass)
  | unknownVariable (name : String)
  | unknownFunction (name : String) (arguments : List (Option Ty))
  | illegalTarget
  | assignment (expected found : Option Ty)
  | condition (found : Option Ty)
  | branches (onTrue onFalse : Option Ty)
  | index (found : Option Ty)
  | notArray (found : Ty)
deriving DecidableEq, Repr

namespace TypeFault

def explain : TypeFault → String
  | operands op expected =>
    "Expected two parameters of type " ++ expected.describe ++ " to " ++ op.name ++ "-expression"
  | operand op expected =>
    "Expected a parameter of type " ++ expected.describe ++ " to " ++ op.name ++ "-expression"
  | unknownVariable name => "Unknown variable '" ++ name ++ "'."
  | unknownFunction name arguments =>
    "Unknown function '" ++ name ++ "(" ++ String.intercalate ", " (arguments.map Ty.describe)
      ++ ")'."
  | illegalTarget => "Left side of an assignment must be a variable."
  | assignment expected found =>
    "Cannot assign a value of type '" ++ Ty.describe found ++ "' to a variable of type '"
      ++ Ty.describe expected ++ "'."
  | condition found =>
    "Condition must be of type 'boolean' but is '" ++ Ty.describe found ++ "'."
  | branches onTrue onFalse =>
    "Branches of a conditional have incompatible types '" ++ Ty.describe onTrue ++ "' and '"
      ++ Ty.describe onFalse ++ "'."
  | index found => "Array index must be of type 'integer' but is '" ++ Ty.describe found ++ "'."
  | notArray found => "Cannot index a value of type '" ++ found.name ++ "'."

instance : Explained TypeFault := ⟨explain⟩

end TypeFault

abbrev TypeError := Located TypeFault

/-! ## The rules as nodes meet them -/

namespace TypedExpr

/-- The type of an element of an array, if `array` is one and `index` can index it. -/
def elementType (array index : Option Ty) : Except TypeFault (Option Ty) := do
  unless index = none ∨ index = some .integer do
    throw (.index index)
  match array with
  | none => return none
  | some t@(.array ..) => return t.element?
  | some t => throw (.notArray t)

/-- The type of an assignment is that of the place it writes. -/
def assignmentType (target value : TypedExpr) : Except TypeFault (Option Ty) := do
  let some place := target.target? | throw .illegalTarget
  unless Ty.assignable place.type value.type do
    throw (.assignment place.type value.type)
  return place.type

def branchesType (onTrue onFalse : Option Ty) : Except TypeFault (Option Ty) :=
  match Ty.branchType? onTrue onFalse with
  | some t => .ok t
  | none => .error (.branches onTrue onFalse)

def variableType (declarations : Declarations) (name : String) : Except TypeFault (Option Ty) :=
  match declarations.variableType? name with
  | some t => .ok (some t)
  | none => .error (.unknownVariable name)

def callType (declarations : Declarations) (name : String) (arguments : List (Option Ty)) :
    Except TypeFault (Option Ty) :=
  match declarations.returnType? name arguments with
  | some t => .ok (some t)
  | none => .error (.unknownFunction name arguments)

/-- The value of a sequence is that of its last statement. -/
def lastType (statements : List TypedExpr) : Option Ty := statements.getLast?.bind Expr.type

end TypedExpr

namespace RawExpr

open TypedExpr

mutual

/-- The expression with the static types of all its nodes. -/
def check (declarations : Declarations) (e : RawExpr) : Except TypeError TypedExpr :=
  match e with
  | .literal ⟨t, _⟩ v => return .literal ⟨t, v.type?⟩ v
  | .var ⟨t, _⟩ x => do
    let type ← t.pos.report (variableType declarations x)
    return .var ⟨t, type⟩ x
  | .unary ⟨t, _⟩ op x => do
    let x ← check declarations x
    let type ← t.pos.report ((op.resultType x.type).mapError (.operand op))
    return .unary ⟨t, type⟩ op x
  | .binary ⟨t, _⟩ op l r => do
    let l ← check declarations l
    let r ← check declarations r
    let (chosen, type) ← t.pos.report ((op.resultType l.type r.type).mapError (.operands op))
    return .binary ⟨t, type⟩ chosen l r
  | .assignment ⟨t, _⟩ x v => do
    let x ← check declarations x
    let v ← check declarations v
    let type ← t.pos.report (assignmentType x v)
    return .assignment ⟨t, type⟩ x v
  | .conditional ⟨t, _⟩ c x y => do
    let c ← check declarations c
    unless Ty.booleanOrUnknown c.type do
      throw ⟨t.pos, .condition c.type⟩
    let x ← check declarations x
    let y ← check declarations y
    let type ← t.pos.report (branchesType x.type y.type)
    return .conditional ⟨t, type⟩ c x y
  | .element ⟨t, _⟩ a i => do
    let a ← check declarations a
    let i ← check declarations i
    let type ← t.pos.report (elementType a.type i.type)
    return .element ⟨t, type⟩ a i
  | .call ⟨t, _⟩ f as => do
    let as ← checkAll declarations as
    let type ← t.pos.report (callType declarations f (as.map Expr.type))
    return .call ⟨t, type⟩ f as
  | .sequence ⟨t, _⟩ ss => do
    let ss ← checkAll declarations ss
    return .sequence ⟨t, lastType ss⟩ ss
termination_by structural e

def checkAll (declarations : Declarations) (es : List RawExpr) :
    Except TypeError (List TypedExpr) :=
  match es with
  | [] => return []
  | e :: es => do
    let e ← check declarations e
    let es ← checkAll declarations es
    return e :: es
termination_by structural es

end

end RawExpr

end ComputedField
