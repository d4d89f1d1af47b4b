import ComputedField.Environment.Basic
import ComputedField.Event
import ComputedField.Value.Element
import ComputedField.Value.Operators

/-!
# Evaluation

`TypedExpr.eval` runs a checked expression: operands from left to right, every effect in its turn,
and nothing in an operand or a branch that is not reached. Every node casts its value to its own
static type, so that an integer becomes a decimal as soon as the checker has seen one.

A run changes a `World`: the variables, the state of the host behind the functions, and the events
reported so far. What was changed before a failure stays changed.
-/

set_option autoImplicit false

namespace ComputedField

/-- All that a run can change. -/
structure World (σ : Type) where
  vars : Variables
  host : σ
  events : List Event

/-- A computation that changes a world and may fail. -/
abbrev Run (σ α : Type) := ExceptT EvalError (StateM (World σ)) α

namespace Run

variable {σ α : Type}

def fail (pos : Position) (fault : EvalFault) : Run σ α := throw ⟨pos, fault⟩

/-- A result that does not touch the world; a failure is reported at `pos`. -/
def located (pos : Position) (r : Except EvalFault α) : Run σ α :=
  match r with
  | .ok a => pure a
  | .error fault => fail pos fault

def report (e : Event) : Run σ Unit :=
  modify fun w => { w with events := w.events ++ [e] }

/-- The value of a variable. -/
def readVariable (pos : Position) (name : String) : Run σ Value := do
  let w ← get
  match w.vars.find? name with
  | some v => return v.value
  | none => fail pos (.unknownVariable name)

/-- Stores a value in a variable. -/
def writeVariable (pos : Position) (name : String) (value : Value) : Run σ Unit := do
  let w ← get
  match w.vars.assign? name value with
  | some vs => set { w with vars := vs }
  | none => fail pos (.unknownVariable name)

/-- Stores a value in a variable or, with indices, in an element of the array that it holds. An
index that leads nowhere leaves the array as it is. -/
def writePlace (pos rootPos : Position) (name : String) (indices : List Value) (value : Value) :
    Run σ Unit := do
  if indices.isEmpty then writeVariable rootPos name value
  else
    let slot ← readVariable rootPos name
    match ← Run.located pos (slot.setElement indices value) with
    | some slot => writeVariable rootPos name slot
    | none => report (.noElement pos)

/-- Calls the function that the static types of the arguments select. -/
def call (functions : Functions σ) (pos : Position) (name : String) (types : List (Option Ty))
    (arguments : List Value) : Run σ Value := do
  report (.called name arguments)
  match functions.resolve? name types with
  | none => fail pos (.unknownFunction name)
  | some f =>
    let w ← get
    let (value, host) := f.invoke arguments w.host
    set { w with host := host }
    return value

end Run

namespace TypedExpr

variable {σ : Type}

mutual

/-- The value of an expression. -/
def eval (functions : Functions σ) (ctx : MathContext) (e : TypedExpr) : Run σ Value := do
  let value ← (match e with
    | .literal _ v => pure v.toValue
    | .var tag x => Run.readVariable tag.token.pos x
    | .unary tag op x => do
      let v ← eval functions ctx x
      Run.located tag.token.pos (op.apply v)
    | .binary tag op l r => do
      match op with
      | .connective c =>
        let left ← eval functions ctx l
        let left ← Run.located tag.token.pos left.truth
        if left = some c.determining then return .boolean c.determining
        let right ← eval functions ctx r
        let right ← Run.located tag.token.pos right.truth
        return .ofTruth (c.apply left right)
      | op =>
        let left ← eval functions ctx l
        let right ← eval functions ctx r
        Run.located tag.token.pos (op.apply ctx left right)
    | .assignment tag x v => do
      let some place := x.target? | Run.fail tag.token.pos .illegalTarget
      let some (root, name) := place.root? | Run.fail tag.token.pos .illegalTarget
      if x.isAssignment then
        discard (eval functions ctx x)
      let indices ← evalIndices functions ctx x
      let value ← eval functions ctx v
      let value := value.castTo place.type
      Run.writePlace tag.token.pos root.token.pos name indices value
      return value
    | .conditional tag c x y => do
      let condition ← eval functions ctx c
      let condition ← Run.located tag.token.pos condition.truth
      if condition = some true then eval functions ctx x else eval functions ctx y
    | .element tag a i => do
      let array ← eval functions ctx a
      let index ← eval functions ctx i
      Run.located tag.token.pos (array.element index)
    | .call tag f as => do
      let arguments ← evalAll functions ctx as
      Run.call functions tag.token.pos f (as.map Expr.type) arguments
    | .sequence _ ss => evalLast functions ctx .null ss)
  return value.castTo e.type
termination_by structural e

/-- The indices that lead to the place which an assignment to this expression writes, from the
outermost array inward. -/
def evalIndices (functions : Functions σ) (ctx : MathContext) (e : TypedExpr) :
    Run σ (List Value) := do
  match e with
  | .element _ a i =>
    let outer ← evalIndices functions ctx a
    let index ← eval functions ctx i
    return outer ++ [index]
  | .unary _ .group x => evalIndices functions ctx x
  | .assignment _ _ v => evalIndices functions ctx v
  | _ => return []
termination_by structural e

/-- The values of some expressions, from left to right. -/
def evalAll (functions : Functions σ) (ctx : MathContext) (es : List TypedExpr) :
    Run σ (List Value) := do
  match es with
  | [] => return []
  | e :: es =>
    let v ← eval functions ctx e
    let vs ← evalAll functions ctx es
    return v :: vs
termination_by structural es

/-- The value of the last of some statements; `last` if there are none. -/
def evalLast (functions : Functions σ) (ctx : MathContext) (last : Value) (es : List TypedExpr) :
    Run σ Value := do
  match es with
  | [] => return last
  | e :: es =>
    let v ← eval functions ctx e
    evalLast functions ctx v es
termination_by structural es

end

end TypedExpr

/-! ## Whole runs -/

/-- How a run ended, and the environment and host that it left. -/
structure Evaluated (σ : Type) where
  outcome : Except EvalError Value
  environment : Environment σ
  host : σ
  events : List Event

namespace Environment

variable {σ : Type}

/-- Evaluates a checked expression. -/
def evaluate (env : Environment σ) (host : σ) (ctx : MathContext) (e : TypedExpr) :
    Evaluated σ :=
  let (outcome, world) := (TypedExpr.eval env.functions ctx e).run ⟨env.vars, host, []⟩
  let last := match outcome with
    | .ok v => [.evaluated v]
    | .error _ => []
  ⟨outcome, { env with vars := world.vars }, world.host, world.events ++ last⟩

end Environment

end ComputedField
