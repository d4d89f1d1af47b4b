import ComputedField.Declarations
import ComputedField.Environment.Functions
import ComputedField.Environment.Variables

/-!
# Environments

The names that a formula may use: variables and functions. What the checker sees of them are the
`declarations`.
-/

set_option autoImplicit false

namespace ComputedField

/-- A name that no variable has. -/
structure NoSuchVariable where
  name : String
deriving DecidableEq, Repr

def NoSuchVariable.message (e : NoSuchVariable) : String := "No such variable '" ++ e.name ++ "'."

/-- A name of which no function takes the arguments. -/
structure NoSuchFunction where
  name : String
deriving DecidableEq, Repr

def NoSuchFunction.message (e : NoSuchFunction) : String := "No such function '" ++ e.name ++ "'."

structure Environment (σ : Type) where
  vars : Variables
  functions : Functions σ

namespace Environment

variable {σ : Type}

def empty : Environment σ := ⟨.empty, .empty⟩

def declare (env : Environment σ) (name : String) (type : Ty) : Environment σ :=
  { env with vars := env.vars.declare name type }

def define (env : Environment σ) (name : String) (type : Ty) (value : Value) : Environment σ :=
  { env with vars := env.vars.define name type value }

def register (env : Environment σ) (f : Function σ) : Environment σ :=
  { env with functions := env.functions.register f }

/-! ## Use from outside a formula -/

def lookup (env : Environment σ) (name : String) : Except NoSuchVariable Variable :=
  match env.vars.find? name with
  | some v => .ok v
  | none => .error ⟨name⟩

/-- Stores a value in a declared variable. -/
def set (env : Environment σ) (name : String) (value : Value) :
    Except NoSuchVariable (Environment σ) :=
  match env.vars.assign? name value with
  | some vs => .ok { env with vars := vs }
  | none => .error ⟨name⟩

/-- The function that a call with arguments of these types selects. -/
def select (env : Environment σ) (name : String) (types : List (Option Ty)) :
    Except NoSuchFunction (Function σ) :=
  match env.functions.resolve? name types with
  | some f => .ok f
  | none => .error ⟨name⟩

/-- Calls a function, selected by the types of its arguments. -/
def invoke (env : Environment σ) (name : String) (types : List (Option Ty))
    (arguments : List Value) (host : σ) : Except NoSuchFunction (Value × σ) :=
  (env.select name types).map fun f => f.invoke arguments host

/-! ## Declarations -/

/-- The types of all names. -/
def declarations (env : Environment σ) : Declarations where
  variableType? name := (env.vars.find? name).map Variable.type
  returnType? name arguments := (env.functions.resolve? name arguments).map Function.returns

end Environment

end ComputedField
