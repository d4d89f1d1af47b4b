import ComputedField.Proofs.Evaluation.Run

/-!
# Evaluation node by node

What `TypedExpr.eval` does at each kind of node, as a sequence of runs of the parts whose last step
is the cast to the type of the node.
-/

set_option autoImplicit false

namespace ComputedField

namespace TypedExpr

variable {σ : Type} (functions : Functions σ) (ctx : MathContext) (tag : Tag (Option Ty))

theorem eval_literal (v : Literal) :
    eval functions ctx (.literal tag v) = pure (v.toValue.castTo tag.note) :=
  rfl

theorem eval_var (name : String) :
    eval functions ctx (.var tag name) = do
      let v ← Run.readVariable tag.token.pos name
      return v.castTo tag.note :=
  rfl

theorem eval_unary (op : UnaryOp) (x : TypedExpr) :
    eval functions ctx (.unary tag op x) = do
      let v ← eval functions ctx x
      let v ← Run.located tag.token.pos (op.apply v)
      return v.castTo tag.note := by
  show (eval functions ctx x >>= _) >>= _ = _
  rw [bind_assoc]
  rfl

theorem eval_binary {op : BinaryOp} (hop : op.propagatesNull = true) (l r : TypedExpr) :
    eval functions ctx (.binary tag op l r) = do
      let left ← eval functions ctx l
      let right ← eval functions ctx r
      let v ← Run.located tag.token.pos (op.apply ctx left right)
      return v.castTo tag.note := by
  cases op with
  | connective c => cases hop
  | arithmetic | concat | relation =>
    show (eval functions ctx l >>= _) >>= _ = _
    simp only [bind_assoc]
    rfl

/-- What a connective does once its left operand has come to `left`. -/
def evalRight (c : Connective) (left : Option Bool) (r : TypedExpr) : Run σ Value := do
  if left = some c.determining then return .boolean c.determining
  let right ← eval functions ctx r
  let right ← Run.located tag.token.pos right.truth
  return .ofTruth (c.apply left right)

theorem eval_connective (c : Connective) (l r : TypedExpr) :
    eval functions ctx (.binary tag (.connective c) l r) = do
      let left ← eval functions ctx l
      let left ← Run.located tag.token.pos left.truth
      let v ← evalRight functions ctx tag c left r
      return v.castTo tag.note := by
  show (eval functions ctx l >>= _) >>= _ = _
  simp only [bind_assoc]
  rfl

/-- The branch that a condition takes; null takes the second. -/
def evalBranch (condition : Option Bool) (x y : TypedExpr) : Run σ Value :=
  if condition = some true then eval functions ctx x else eval functions ctx y

theorem eval_conditional (c x y : TypedExpr) :
    eval functions ctx (.conditional tag c x y) = do
      let condition ← eval functions ctx c
      let condition ← Run.located tag.token.pos condition.truth
      let v ← evalBranch functions ctx condition x y
      return v.castTo tag.note := by
  show (eval functions ctx c >>= _) >>= _ = _
  simp only [bind_assoc]
  rfl

theorem eval_element (a i : TypedExpr) :
    eval functions ctx (.element tag a i) = do
      let array ← eval functions ctx a
      let index ← eval functions ctx i
      let v ← Run.located tag.token.pos (array.element index)
      return v.castTo tag.note := by
  show (eval functions ctx a >>= _) >>= _ = _
  simp only [bind_assoc]
  rfl

theorem eval_call (name : String) (as : List TypedExpr) :
    eval functions ctx (.call tag name as) = do
      let arguments ← evalAll functions ctx as
      let v ← Run.call functions tag.token.pos name (as.map Expr.type) arguments
      return v.castTo tag.note := by
  show (evalAll functions ctx as >>= _) >>= _ = _
  simp only [bind_assoc]
  rfl

theorem eval_sequence (ss : List TypedExpr) :
    eval functions ctx (.sequence tag ss) = do
      let v ← evalLast functions ctx .null ss
      return v.castTo tag.note :=
  rfl

/-- The assignment of a value to a place with this variable at its root. -/
theorem eval_assignment {x v place : TypedExpr} {root : Tag (Option Ty)} {name : String}
    (hplace : x.target? = some place) (hroot : place.root? = some (root, name)) :
    eval functions ctx (.assignment tag x v) = do
      if x.isAssignment then
        discard (eval functions ctx x)
      let indices ← evalIndices functions ctx x
      let value ← eval functions ctx v
      Run.writePlace tag.token.pos root.token.pos name indices (value.castTo place.type)
      return (value.castTo place.type).castTo tag.note := by
  rw [eval]
  simp only [hplace, hroot]
  cases x.isAssignment with
  | true =>
    simp only [if_true, bind_assoc, pure_bind]
    rfl
  | false =>
    simp only [Bool.false_eq_true, if_false, bind_assoc, pure_bind]
    rfl

/-- An assignment that leads to no place fails at once. -/
theorem eval_assignment_of_target?_eq_none {x : TypedExpr} (h : x.target? = none)
    (v : TypedExpr) :
    eval functions ctx (.assignment tag x v) = Run.fail tag.token.pos .illegalTarget := by
  rw [eval]
  simp only [h]
  rfl

/-! ## Lists and indices -/

@[simp] theorem evalAll_nil : evalAll functions ctx [] = pure [] :=
  rfl

theorem evalAll_cons (e : TypedExpr) (es : List TypedExpr) :
    evalAll functions ctx (e :: es) = do
      let v ← eval functions ctx e
      let vs ← evalAll functions ctx es
      return v :: vs :=
  rfl

@[simp] theorem evalLast_nil (last : Value) : evalLast functions ctx last [] = pure last :=
  rfl

theorem evalLast_cons (last : Value) (s : TypedExpr) (ss : List TypedExpr) :
    evalLast functions ctx last (s :: ss) =
      (do
        let v ← eval functions ctx s
        evalLast functions ctx v ss) :=
  rfl

theorem evalIndices_var (name : String) :
    evalIndices functions ctx (.var tag name) = pure [] :=
  rfl

theorem evalIndices_element (a i : TypedExpr) :
    evalIndices functions ctx (.element tag a i) = do
      let outer ← evalIndices functions ctx a
      let index ← eval functions ctx i
      return outer ++ [index] :=
  rfl

theorem evalIndices_group (x : TypedExpr) :
    evalIndices functions ctx (.unary tag .group x) = evalIndices functions ctx x :=
  rfl

theorem evalIndices_assignment (x v : TypedExpr) :
    evalIndices functions ctx (.assignment tag x v) = evalIndices functions ctx v :=
  rfl

end TypedExpr

/-! ## Whole runs -/

namespace Environment

variable {σ : Type} (env : Environment σ) (host : σ) (ctx : MathContext)

/-- The world in which an evaluation begins. -/
def world : World σ := ⟨env.vars, host, []⟩

/-- An evaluation in terms of the result of its run. -/
theorem evaluate_eq (e : TypedExpr) :
    env.evaluate host ctx e =
      (let (outcome, w) := (TypedExpr.eval env.functions ctx e).result (env.world host)
       ⟨outcome, { env with vars := w.vars }, w.host,
        w.events ++ match outcome with | .ok v => [.evaluated v] | .error _ => []⟩) := rfl

variable {env host ctx} in
theorem evaluate_of_ok {e : TypedExpr} {v : Value} {w : World σ}
    (h : (TypedExpr.eval env.functions ctx e).result (env.world host) = (.ok v, w)) :
    env.evaluate host ctx e =
      ⟨.ok v, { env with vars := w.vars }, w.host, w.events ++ [.evaluated v]⟩ := by
  rw [evaluate_eq, h]

theorem evaluate_congr {e e' : TypedExpr}
    (h : (TypedExpr.eval env.functions ctx e').result (env.world host) =
      (TypedExpr.eval env.functions ctx e).result (env.world host)) :
    env.evaluate host ctx e' = env.evaluate host ctx e := by
  rw [evaluate_eq, evaluate_eq, h]

end Environment

end ComputedField
