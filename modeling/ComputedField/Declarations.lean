import ComputedField.Ty

/-!
# Declarations

What is known of the names in a formula before it runs: the types of the variables, and the return
type of the function that a call selects.
-/

set_option autoImplicit false

namespace ComputedField

structure Declarations where
  variableType? : String → Option Ty
  /-- by name and argument types, which may be unknown -/
  returnType? : String → List (Option Ty) → Option Ty

end ComputedField
