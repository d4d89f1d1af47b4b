import ComputedField.Text.Blank

/-!
# Static types

A type is a scalar or an array of scalars with a number of dimensions. Where a type may be unknown,
as it is for `null`, it is an `Option Ty`: `none` fits everything.
-/

set_option autoImplicit false

namespace ComputedField

/-- What a single value is. -/
inductive Scalar where
  | boolean
  | integer
  | decimal
  | string
  | date
deriving DecidableEq, Repr, Inhabited

/-- What an expression is. An array may have any number of dimensions; where they are counted in 32
bits, everything said here is about fewer than `2 ^ 32` of them. -/
inductive Ty where
  | scalar (element : Scalar)
  | array (element : Scalar) (depth : Nat)
deriving DecidableEq, Repr, Inhabited

namespace Ty

abbrev boolean : Ty := scalar .boolean
abbrev integer : Ty := scalar .integer
abbrev decimal : Ty := scalar .decimal
abbrev string : Ty := scalar .string
abbrev date : Ty := scalar .date

/-- An array of `depth` dimensions over `t`; an array of arrays is one array with the dimensions of
both. -/
def arrayOf (t : Ty) (depth : Nat) : Ty :=
  match t with
  | scalar s => array s depth
  | array s inner => array s (inner + depth)

def isNumeric (t : Ty) : Bool := t == integer || t == decimal

/-- What indexing once yields; scalars have no elements. -/
def element? (t : Ty) : Option Ty :=
  match t with
  | scalar _ => none
  | array s depth => some (if 1 < depth then array s (depth - 1) else scalar s)

/-- Integers widen to decimals. -/
def widened (t : Ty) : Ty := if t = integer then decimal else t

/-- The type of a numeric operation: unknown if both sides are, else decimal if a side is. -/
def numericResult (left right : Option Ty) : Option Ty :=
  if left = none ∧ right = none then none
  else if left = some decimal ∨ right = some decimal then some decimal
  else some integer

/-- A known type has to pass the test `p`. -/
def knownIs (p : Ty → Bool) (t : Option Ty) : Bool := t.all p

def numericOrUnknown (t : Option Ty) : Bool := knownIs isNumeric t

def booleanOrUnknown (t : Option Ty) : Bool := knownIs (· == boolean) t

def stringOrUnknown (t : Option Ty) : Bool := knownIs (· == string) t

end Ty

/-! ## Names -/

namespace Scalar

def name : Scalar → String
  | boolean => "boolean"
  | integer => "integer"
  | decimal => "decimal"
  | string => "string"
  | date => "date"

/-- Every accepted spelling, in lower case. -/
def spellings : List (String × Scalar) :=
  [("boolean", boolean), ("bool", boolean), ("integer", integer), ("int", integer),
   ("decimal", decimal), ("number", decimal), ("string", string), ("text", string),
   ("date", date)]

/-- Reads a scalar name; the case of its letters does not matter. -/
def ofName? (name : List Char) : Option Scalar :=
  spellings.lookup (String.ofList (name.map Char.toLower))

end Scalar

namespace Ty

/-- The scalar's name, and a pair of brackets for each dimension. -/
def name : Ty → String
  | scalar s => s.name
  | array s depth => s.name ++ String.ofList (List.replicate depth ['[', ']']).flatten

/-- A type for the reader, the unknown one included. -/
def describe (t : Option Ty) : String :=
  match t with
  | some t => t.name
  | none => "null"

/-- Counts the bracket pairs at the end of a name, each with white space allowed before it, and
gives what is left in front of them. -/
def splitBrackets (cs : List Char) : List Char × Nat :=
  match _h : Text.dropSuffix? ['[', ']'] cs with
  | none => (cs, 0)
  | some front =>
    let (base, depth) := splitBrackets (Text.trimEnd front)
    (base, depth + 1)
termination_by cs.length
decreasing_by
  have h₁ := Text.length_trimEnd_le front
  have h₂ := congrArg List.length (Text.append_of_dropSuffix? _h)
  simp at h₂
  omega

/-- A type name that no type has. -/
structure UnknownName where
  name : String
deriving DecidableEq, Repr

def UnknownName.message (e : UnknownName) : String := "Unknown type name '" ++ e.name ++ "'."

/-- Reads a type name; white space around it, and before its brackets, does not count. A count of 32
bits is exact for names with fewer than `2 ^ 32` pairs of brackets, so for all names below eight
gibibytes. -/
def ofName (name : String) : Except UnknownName Ty :=
  let trimmed := Text.trim name.toList
  let (base, depth) := splitBrackets trimmed
  match Scalar.ofName? base with
  | none => .error ⟨String.ofList trimmed⟩
  | some s => .ok (if depth = 0 then scalar s else array s depth)

end Ty

end ComputedField
