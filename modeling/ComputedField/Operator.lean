/-!
# Operators

The operators of the language with their names and how tightly they bind.
-/

set_option autoImplicit false

namespace ComputedField

/-! ## Binding strength, loosest first -/

namespace Precedence

abbrev sequence : Nat := 0
abbrev assignment : Nat := 1
abbrev conditional : Nat := 2
abbrev boolean : Nat := 3
abbrev comparison : Nat := 4
abbrev additive : Nat := 5
abbrev multiplicative : Nat := 6
abbrev power : Nat := 7
abbrev unary : Nat := 8
abbrev primary : Nat := 9

end Precedence

/-! ## Binary operators -/

/-- Operators on numbers. Addition is also written between strings. -/
inductive Arithmetic where
  | add
  | subtract
  | multiply
  | divide
  | modulo
  | power
deriving DecidableEq, Repr, Inhabited

/-- Comparisons of two values of one kind. -/
inductive Relation where
  | equal
  | notEqual
  | less
  | lessEqual
  | greater
  | greaterEqual
deriving DecidableEq, Repr, Inhabited

/-- Three-valued conjunction and disjunction. -/
inductive Connective where
  | and
  | or
deriving DecidableEq, Repr, Inhabited

inductive BinaryOp where
  | arithmetic (op : Arithmetic)
  /-- concatenation of strings, written like addition -/
  | concat
  | relation (r : Relation)
  | connective (c : Connective)
deriving DecidableEq, Repr, Inhabited

namespace Relation

/-- Tests for sameness, as against tests of order. -/
def isEquality : Relation → Bool
  | equal | notEqual => true
  | _ => false

/-- Whether the relation holds of two values in this order. -/
def holds : Relation → Ordering → Bool
  | equal, o => o == .eq
  | notEqual, o => o != .eq
  | less, o => o == .lt
  | lessEqual, o => o != .gt
  | greater, o => o == .gt
  | greaterEqual, o => o != .lt

end Relation

namespace Connective

/-- The operand that decides the result by itself. -/
def determining : Connective → Bool
  | and => false
  | or => true

/-- A determining operand wins over an unknown one; otherwise the unknown one wins. -/
def apply (c : Connective) (left right : Option Bool) : Option Bool :=
  if left = some c.determining ∨ right = some c.determining then some c.determining
  else if left = none ∨ right = none then none
  else some (!c.determining)

end Connective

namespace Arithmetic

def name : Arithmetic → String
  | add => "ADD"
  | subtract => "SUBTRACT"
  | multiply => "MULTIPLY"
  | divide => "DIVIDE"
  | modulo => "MODULO"
  | power => "POWER"

def precedence : Arithmetic → Nat
  | add | subtract => Precedence.additive
  | multiply | divide | modulo => Precedence.multiplicative
  | power => Precedence.power

end Arithmetic

namespace BinaryOp

abbrev add : BinaryOp := arithmetic .add
abbrev subtract : BinaryOp := arithmetic .subtract
abbrev multiply : BinaryOp := arithmetic .multiply
abbrev divide : BinaryOp := arithmetic .divide
abbrev modulo : BinaryOp := arithmetic .modulo
abbrev power : BinaryOp := arithmetic .power

/-- The name used in diagnostics. -/
def name : BinaryOp → String
  | arithmetic op => op.name
  | concat => "CONCAT"
  | relation .equal => "EQUAL"
  | relation .notEqual => "NOT-EQUAL"
  | relation .less => "LESS"
  | relation .lessEqual => "LESS-OR-EQUAL"
  | relation .greater => "GREATER"
  | relation .greaterEqual => "GREATER-OR-EQUAL"
  | connective .and => "AND"
  | connective .or => "OR"

def precedence : BinaryOp → Nat
  | arithmetic op => op.precedence
  | concat => Precedence.additive
  | relation _ => Precedence.comparison
  | connective _ => Precedence.boolean

/-- Powers group to the right, all other operators to the left. -/
def isRightAssociative (op : BinaryOp) : Bool := op == power

/-- All operators but the connectives are null if an operand is. -/
def propagatesNull : BinaryOp → Bool
  | connective _ => false
  | _ => true

theorem propagatesNull_or_connective (op : BinaryOp) :
    op.propagatesNull = true ∨ ∃ c, op = connective c := by
  cases op with
  | connective c => exact .inr ⟨c, rfl⟩
  | arithmetic | concat | relation => exact .inl rfl

/-- Division, remainder and power can fail on numbers; the others cannot. -/
def mayFail (op : BinaryOp) : Bool := op == divide || op == modulo || op == power

def all : List BinaryOp :=
  [add, subtract, multiply, divide, modulo, power, concat,
   relation .equal, relation .notEqual, relation .less, relation .lessEqual,
   relation .greater, relation .greaterEqual, connective .and, connective .or]

def ofName? (name : String) : Option BinaryOp := all.find? fun op => op.name == name

end BinaryOp

/-! ## Unary operators -/

inductive UnaryOp where
  | positive
  | negative
  | not
  /-- a pair of parentheses, kept so that the text can be written again as it was -/
  | group
deriving DecidableEq, Repr, Inhabited

namespace UnaryOp

/-- The name used in diagnostics. -/
def name : UnaryOp → String
  | positive => "POSITIVE"
  | negative => "NEGATIVE"
  | not => "NOT"
  | group => "FACTOR"

def all : List UnaryOp := [positive, negative, not, group]

def ofName? (name : String) : Option UnaryOp := all.find? fun op => op.name == name

end UnaryOp

end ComputedField
