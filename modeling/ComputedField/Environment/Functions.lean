import ComputedField.Typing.Rules
import ComputedField.Value.Basic

/-!
# Functions

A name may stand for several functions. A call selects among those of its name by the static types
of its arguments: the first whose parameters are exactly these types, and otherwise the first that
accepts them. A function may read and change a state `σ` of the host.
-/

set_option autoImplicit false

namespace ComputedField

structure Function (σ : Type) where
  name : String
  parameters : List Ty
  returns : Ty
  body : List Value → σ → Value × σ

namespace Function

variable {σ : Type}

/-- The arguments are known and have the types of the parameters. -/
def isExact (f : Function σ) (arguments : List (Option Ty)) : Bool :=
  arguments == f.parameters.map some

/-- Every argument may be stored in its parameter. -/
def accepts (f : Function σ) (arguments : List (Option Ty)) : Bool :=
  f.parameters.length == arguments.length
    && (f.parameters.zip arguments).all fun p => Ty.assignable (some p.1) p.2

/-- Arguments as the body sees them: cast to the types of the parameters, and none beyond. -/
def castArguments (f : Function σ) (arguments : List Value) : List Value :=
  List.zipWith (fun v t => v.castTo (some t)) arguments f.parameters

def invoke (f : Function σ) (arguments : List Value) (host : σ) : Value × σ :=
  f.body (f.castArguments arguments) host

end Function

/-- Functions in the order in which they were registered. -/
structure Functions (σ : Type) where
  registered : List (Function σ)

namespace Functions

variable {σ : Type}

def empty : Functions σ := ⟨[]⟩

def register (fs : Functions σ) (f : Function σ) : Functions σ := ⟨fs.registered ++ [f]⟩

/-- The functions of a name. -/
def overloads (fs : Functions σ) (name : String) : List (Function σ) :=
  fs.registered.filter (·.name == name)

/-- The function that a call selects. -/
def resolve? (fs : Functions σ) (name : String) (arguments : List (Option Ty)) :
    Option (Function σ) :=
  let overloads := fs.overloads name
  (overloads.find? (·.isExact arguments)).or (overloads.find? (·.accepts arguments))

theorem overloads_register (fs : Functions σ) (f : Function σ) (name : String) :
    (fs.register f).overloads name
      = fs.overloads name ++ if f.name = name then [f] else [] := by
  by_cases h : f.name = name <;> simp [register, overloads, h]

end Functions

end ComputedField
