import ComputedField.Operator
import ComputedField.Position
import ComputedField.Value.Basic

/-!
# Evaluation faults

Why an evaluation has no value, and how that is worded.
-/

set_option autoImplicit false

namespace ComputedField

/-- What is done with two operands. -/
inductive Combination where
  | arithmetic (op : Arithmetic)
  | concatenation
  | comparison
deriving DecidableEq, Repr

def Combination.verb : Combination → String
  | arithmetic op => op.name
  | concatenation => "concatenate"
  | comparison => "compare"

/-- A value of a kind that has no place where it stands. -/
inductive KindFault where
  /-- a truth value was needed; `found` is the text of the value -/
  | notBoolean (found : String)
  | operands (act : Combination) (left right : Kind)
  | operand (op : UnaryOp) (found : Kind)
  | unorderedBooleans
  | index (found : Kind)
  | notIndexable (found : Kind)
deriving DecidableEq, Repr

def KindFault.explain : KindFault → String
  | notBoolean found => "expected a boolean but found '" ++ found ++ "'"
  | operands act left right => "cannot " ++ act.verb ++ " " ++ left.name ++ " and " ++ right.name
  | operand op found => "cannot apply " ++ op.name ++ " to a value of kind " ++ found.name
  | unorderedBooleans => "booleans are not ordered"
  | index found => "array index must be an integer, found " ++ found.name
  | notIndexable found => "cannot index a value of kind " ++ found.name

/-- Why an evaluation stopped. -/
inductive EvalFault where
  | unknownVariable (name : String)
  | unknownFunction (name : String)
  | divisionByZero
  | modulusNotPositive
  | negativeExponent
  | exponentTooLarge
  | undefinedPower
  | kind (fault : KindFault)
  | illegalTarget
deriving DecidableEq, Repr

namespace EvalFault

def explain : EvalFault → String
  | unknownVariable name => "Unknown variable '" ++ name ++ "'."
  | unknownFunction name => "Unknown function '" ++ name ++ "'."
  | divisionByZero => "Division by zero."
  | modulusNotPositive => "Modulus must be positive."
  | negativeExponent => "Integer exponent must not be negative."
  | exponentTooLarge => "Exponent is too large."
  | undefinedPower => "Power has no real result."
  | kind fault => "Type error: " ++ fault.explain ++ "."
  | illegalTarget => "Left side of an assignment must be a variable."

instance : Explained EvalFault := ⟨explain⟩

def ofModulo : ModuloFault → EvalFault
  | .divisionByZero => divisionByZero
  | .notPositive => modulusNotPositive

def ofPower : PowerFault → EvalFault
  | .negativeExponent => negativeExponent
  | .tooLarge => exponentTooLarge
  | .undefined => undefinedPower
  | .divisionByZero => divisionByZero

end EvalFault

/-- A failed evaluation: the fault and the place of the expression that met it. -/
abbrev EvalError := Located EvalFault

end ComputedField
