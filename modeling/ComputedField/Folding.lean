import ComputedField.Event
import ComputedField.Value.Operators

/-!
# Constant folding

`TypedExpr.fold` evaluates the constant parts of a checked expression ahead of time and drops
parentheses. A constant part that fails makes folding fail, unless it is *guarded*: it stands where
evaluation may never come, such as a branch or the right side of a connective, and is left as it is.
-/

set_option autoImplicit false

namespace ComputedField

namespace TypedExpr

/-- Folding reports events and fails as an evaluation does. -/
abbrev Folding (α : Type) := Traced EvalError α

/-- The operand to use where a whole node has been decided: a truth value or null. -/
def truthLiteral (value : Option Bool) (token : Token) : TypedExpr :=
  .literal ⟨token, some .boolean⟩ (match value with | some b => .boolean b | none => .null)

/-- A literal for the value that a constant node has, cast to the node's type. Values without a
literal form, and failures in a guarded place, give none. -/
def constant (guarded : Bool) (tag : Tag (Option Ty)) (result : Except EvalFault Value) :
    Folding (Option TypedExpr) :=
  match result with
  | .ok v =>
    match Literal.ofValue? (v.castTo tag.note) with
    | some l => do
      Traced.report (.folded tag.token.pos)
      return some (.literal tag l)
    | none => return none
  | .error fault => do
    let error : EvalError := ⟨tag.token.pos, fault⟩
    if guarded then
      Traced.report (.leftUnfolded error)
      return none
    else
      Traced.fail error

/-! ## Nodes over folded operands -/

/-- An operator on a literal is applied; parentheses vanish. -/
def foldUnary (guarded : Bool) (tag : Tag (Option Ty)) (op : UnaryOp) (x : TypedExpr) :
    Folding TypedExpr := do
  if op = .group then return x
  let some v := x.literal? | return .unary tag op x
  return (← constant guarded tag (op.apply v.toValue)).getD (.unary tag op x)

/-- A null operand beside one that has no effects decides the result. -/
def hasNullOperand (l r : TypedExpr) : Bool :=
  (l.isNullLiteral && r.isPure) || (r.isNullLiteral && l.isPure)

/-- An operator on two literals is applied, and null takes the other operand with it. The
connectives have rules of their own. -/
def foldBinary (ctx : MathContext) (guarded : Bool) (tag : Tag (Option Ty)) (op : BinaryOp)
    (l r : TypedExpr) : Folding TypedExpr :=
  match l.literal?, r.literal? with
  | some v, some w => do
    let folded ← constant guarded tag (op.apply ctx v.toValue w.toValue)
    return folded.getD (.binary tag op l r)
  | _, _ =>
    if op.propagatesNull && hasNullOperand l r then do
      Traced.report (.nullOperand op tag.token.pos)
      return .literal tag .null
    else return .binary tag op l r

/-- What a constant operand means for a connective. -/
inductive Role where
  /-- decides the result -/
  | determining
  /-- leaves the result to the other operand -/
  | neutral
  /-- null: only the other operand can decide -/
  | unknown
deriving DecidableEq, Repr

def role? (c : Connective) (e : TypedExpr) : Option Role :=
  match e.literal? with
  | some (.boolean b) => some (if b = c.determining then .determining else .neutral)
  | some .null => some .unknown
  | _ => none

/-- A surviving operand takes the type of the connective. -/
def asBoolean (e : TypedExpr) : TypedExpr :=
  if e.type = none then e.withNote (some .boolean) else e

def logicNode (c : Connective) (token : Token) (l r : TypedExpr) : TypedExpr :=
  .binary ⟨token, some .boolean⟩ (.connective c) l r

/-- A connective with null on its left. -/
def foldUnknownLeft (c : Connective) (token : Token) (l r : TypedExpr) : TypedExpr :=
  match r.literal? with
  | some (.boolean b) => truthLiteral (c.apply none (some b)) token
  | some .null => truthLiteral none token
  | _ => logicNode c token (truthLiteral none l.token) r

/-- A connective whose left side is no constant. A constant on the right may only decide if the
left side has no effects. -/
def foldByRight (c : Connective) (token : Token) (l r : TypedExpr) : Folding TypedExpr :=
  match role? c r with
  | some .determining =>
    if l.isPure then do
      Traced.report (.decidedByRight c token.pos)
      return truthLiteral (some c.determining) token
    else return logicNode c token l r
  | some .neutral => do
    Traced.report (.neutralDropped c token.pos)
    return asBoolean l
  | some .unknown => return logicNode c token l (truthLiteral none r.token)
  | none => return logicNode c token l r

/-- Which branch a constant condition takes; null takes the second. -/
def takenBranch? (c : TypedExpr) : Option Bool :=
  match c.literal? with
  | some (.boolean b) => some b
  | some .null => some false
  | _ => none

/-- A branch as it replaces a conditional of type `type`. A branch that only the conditional widens
cannot replace it, except that a literal is widened at once. -/
def adapted? (branch : TypedExpr) (type : Option Ty) : Option TypedExpr :=
  if branch.type = type then some branch
  else
    match branch.literal?, type with
    | some (.integer n), some (.scalar .decimal) =>
      some (.literal ⟨branch.token, some .decimal⟩ (.decimal (Decimal.ofInt n)))
    | _, _ =>
      if type = some .decimal ∧ branch.type = some .integer then none
      else some (branch.withNote type)

/-! ## The whole tree -/

mutual

/-- Folds an expression. `guarded` tells that evaluation may never come to it. -/
def foldIn (ctx : MathContext) (guarded : Bool) (e : TypedExpr) : Folding TypedExpr :=
  match e with
  | .literal .. | .var .. => return e
  | .unary tag op x => do
    let x ← foldIn ctx guarded x
    foldUnary guarded tag op x
  | .binary tag op l r => do
    let l ← foldIn ctx guarded l
    match op with
    | .connective c =>
      match role? c l with
      | some .determining =>
        Traced.report (.decidedByLeft c tag.token.pos)
        return truthLiteral (some c.determining) tag.token
      | some .neutral =>
        Traced.report (.neutralDropped c tag.token.pos)
        let r ← foldIn ctx guarded r
        return asBoolean r
      | some .unknown =>
        let r ← foldIn ctx guarded r
        return foldUnknownLeft c tag.token l r
      | none =>
        let r ← foldIn ctx true r
        foldByRight c tag.token l r
    | op =>
      let r ← foldIn ctx guarded r
      foldBinary ctx guarded tag op l r
  | .assignment tag x v => do
    let x ← foldIn ctx guarded x
    let v ← foldIn ctx guarded v
    return .assignment tag x v
  | .conditional tag c x y => do
    let c ← foldIn ctx guarded c
    match takenBranch? c with
    | none =>
      let x ← foldIn ctx true x
      let y ← foldIn ctx true y
      return .conditional tag c x y
    | some true =>
      let x ← foldIn ctx guarded x
      match adapted? x tag.note with
      | some branch =>
        Traced.report (.branchTaken tag.token.pos)
        return branch
      | none =>
        let y ← foldIn ctx true y
        return .conditional tag c x y
    | some false =>
      let y ← foldIn ctx guarded y
      match adapted? y tag.note with
      | some branch =>
        Traced.report (.branchTaken tag.token.pos)
        return branch
      | none =>
        let x ← foldIn ctx true x
        return .conditional tag c x y
  | .element tag a i => do
    let a ← foldIn ctx guarded a
    let i ← foldIn ctx guarded i
    return .element tag a i
  | .call tag f as => do
    let as ← foldAllIn ctx guarded as
    return .call tag f as
  | .sequence tag ss => do
    match ← foldAllIn ctx guarded ss with
    | [s] => return s
    | ss => return .sequence tag ss
termination_by structural e

def foldAllIn (ctx : MathContext) (guarded : Bool) (es : List TypedExpr) :
    Folding (List TypedExpr) :=
  match es with
  | [] => return []
  | e :: es => do
    let e ← foldIn ctx guarded e
    let es ← foldAllIn ctx guarded es
    return e :: es
termination_by structural es

end

/-- Folds an expression that stands alone, which evaluation is bound to reach. -/
def fold (ctx : MathContext) (e : TypedExpr) : Folding TypedExpr := foldIn ctx false e

end TypedExpr

end ComputedField
