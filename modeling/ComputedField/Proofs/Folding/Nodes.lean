import ComputedField.Folding
import ComputedField.Proofs.Outcome

/-!
# Folding node by node

What `TypedExpr.foldIn` does at each kind of node. The connectives and the conditional look at what
their first part has folded to before they go on (`foldRight`, `foldBranches`).
-/

set_option autoImplicit false

namespace ComputedField

@[simp] theorem Traced.outcome_map {ε α β : Type} (f : α → β) (x : Traced ε α) :
    (f <$> x).outcome = x.outcome >>= fun a => .ok (f a) := by
  obtain ⟨events, outcome⟩ := x
  cases outcome <;> rfl

namespace TypedExpr

variable {ctx : MathContext} {guarded : Bool} {tag : Tag (Option Ty)}

theorem foldIn_literal (v : Literal) :
    foldIn ctx guarded (.literal tag v) = pure (.literal tag v) :=
  rfl

theorem foldIn_var (name : String) :
    foldIn ctx guarded (.var tag name) = pure (.var tag name) :=
  rfl

theorem foldIn_unary (op : UnaryOp) (x : TypedExpr) :
    foldIn ctx guarded (.unary tag op x) =
      (do
        let x ← foldIn ctx guarded x
        foldUnary guarded tag op x) :=
  rfl

theorem foldIn_binary {op : BinaryOp} (hop : op.propagatesNull = true) (l r : TypedExpr) :
    foldIn ctx guarded (.binary tag op l r) =
      (do
        let l ← foldIn ctx guarded l
        let r ← foldIn ctx guarded r
        foldBinary ctx guarded tag op l r) := by
  cases op with
  | connective c => cases hop
  | arithmetic | concat | relation => rfl

/-- The rest of a connective, once its left operand has folded to `l`. -/
def foldRight (ctx : MathContext) (guarded : Bool) (tag : Tag (Option Ty)) (c : Connective)
    (l r : TypedExpr) : Folding TypedExpr :=
  match role? c l with
  | some .determining => do
    Traced.report (.decidedByLeft c tag.token.pos)
    return truthLiteral (some c.determining) tag.token
  | some .neutral => do
    Traced.report (.neutralDropped c tag.token.pos)
    let r ← foldIn ctx guarded r
    return asBoolean r
  | some .unknown => do
    let r ← foldIn ctx guarded r
    return foldUnknownLeft c tag.token l r
  | none => do
    let r ← foldIn ctx true r
    foldByRight c tag.token l r

theorem foldIn_connective (c : Connective) (l r : TypedExpr) :
    foldIn ctx guarded (.binary tag (.connective c) l r) =
      (do
        let l ← foldIn ctx guarded l
        foldRight ctx guarded tag c l r) :=
  rfl

theorem foldIn_assignment (x v : TypedExpr) :
    foldIn ctx guarded (.assignment tag x v) = do
      let x ← foldIn ctx guarded x
      let v ← foldIn ctx guarded v
      return .assignment tag x v :=
  rfl

/-- The rest of a conditional, once its condition has folded to `c`. -/
def foldBranches (ctx : MathContext) (guarded : Bool) (tag : Tag (Option Ty)) (c x y : TypedExpr) :
    Folding TypedExpr :=
  match takenBranch? c with
  | none => do
    let x ← foldIn ctx true x
    let y ← foldIn ctx true y
    return .conditional tag c x y
  | some true => do
    let x ← foldIn ctx guarded x
    match adapted? x tag.note with
    | some branch =>
      Traced.report (.branchTaken tag.token.pos)
      return branch
    | none =>
      let y ← foldIn ctx true y
      return .conditional tag c x y
  | some false => do
    let y ← foldIn ctx guarded y
    match adapted? y tag.note with
    | some branch =>
      Traced.report (.branchTaken tag.token.pos)
      return branch
    | none =>
      let x ← foldIn ctx true x
      return .conditional tag c x y

theorem foldIn_conditional (c x y : TypedExpr) :
    foldIn ctx guarded (.conditional tag c x y) =
      (do
        let c ← foldIn ctx guarded c
        foldBranches ctx guarded tag c x y) :=
  rfl

/-- A branch that a constant condition takes replaces the conditional if it can be adapted. -/
theorem outcome_foldBranches_of_taken {c : TypedExpr} {taken : Bool}
    (h : takenBranch? c = some taken) (x y : TypedExpr) :
    (foldBranches ctx guarded tag c x y).outcome = do
      let branch ← (foldIn ctx guarded (if taken then x else y)).outcome
      match adapted? branch tag.note with
      | some z => return z
      | none =>
        let other ← (foldIn ctx true (if taken then y else x)).outcome
        return .conditional tag c (if taken then branch else other)
          (if taken then other else branch) := by
  unfold foldBranches
  rw [h]
  cases taken with
  | true =>
    rw [Traced.outcome_bind]
    refine congrArg _ (funext fun branch => ?_)
    cases adapted? branch tag.note <;> simp
  | false =>
    rw [Traced.outcome_bind]
    refine congrArg _ (funext fun branch => ?_)
    cases adapted? branch tag.note <;> simp

/-- What replaces a conditional is its branch, under the type of the conditional, or the decimal for
an integer. -/
theorem adapted?_eq_some {branch z : TypedExpr} {t : Option Ty} (h : adapted? branch t = some z) :
    z = branch ∧ branch.type = t ∨
      (∃ n, branch.literal? = some (.integer n) ∧ t = some .decimal ∧
        z = .literal ⟨branch.token, some .decimal⟩ (.decimal (Decimal.ofInt n))) ∨
      z = branch.withNote t ∧ branch.type ≠ t ∧ ¬ (t = some .decimal ∧ branch.type = some .integer) := by
  unfold adapted? at h
  split at h
  · rename_i hsame
    cases h
    exact .inl ⟨rfl, hsame⟩
  · rename_i hdiffer
    split at h
    · rename_i n hn
      cases h
      exact .inr (.inl ⟨n, hn, rfl, rfl⟩)
    · split at h
      · cases h
      · rename_i hwidens
        cases h
        exact .inr (.inr ⟨rfl, hdiffer, hwidens⟩)

/-- Only integers that have to become decimals keep a branch from replacing its conditional. -/
theorem adapted?_eq_none {branch : TypedExpr} {t : Option Ty} (h : adapted? branch t = none) :
    t = some .decimal ∧ branch.type = some .integer ∧ ∀ n, branch.literal? ≠ some (.integer n) := by
  unfold adapted? at h
  split at h
  · cases h
  · split at h
    · cases h
    · rename_i hliteral _
      split at h
      · rename_i hwidens
        obtain ⟨rfl, hinteger⟩ := hwidens
        exact ⟨rfl, hinteger, fun n hn => hliteral n hn rfl⟩
      · cases h

theorem foldIn_element (a i : TypedExpr) :
    foldIn ctx guarded (.element tag a i) = do
      let a ← foldIn ctx guarded a
      let i ← foldIn ctx guarded i
      return .element tag a i :=
  rfl

theorem foldIn_call (name : String) (as : List TypedExpr) :
    foldIn ctx guarded (.call tag name as) = do
      let as ← foldAllIn ctx guarded as
      return .call tag name as :=
  rfl

/-- A sequence with these statements; a single statement stands for itself. -/
def ofFolded (tag : Tag (Option Ty)) : List TypedExpr → TypedExpr
  | [s] => s
  | ss => .sequence tag ss

theorem foldIn_sequence (ss : List TypedExpr) :
    (foldIn ctx guarded (.sequence tag ss)).outcome =
      (foldAllIn ctx guarded ss).outcome >>= fun ss => .ok (ofFolded tag ss) := by
  show (foldAllIn ctx guarded ss >>= _).outcome = _
  rw [Traced.outcome_bind]
  congr 1
  funext ss
  cases ss with
  | nil => rfl
  | cons s ss => cases ss <;> rfl

theorem foldAllIn_nil : foldAllIn ctx guarded [] = pure [] :=
  rfl

theorem foldAllIn_cons (e : TypedExpr) (es : List TypedExpr) :
    foldAllIn ctx guarded (e :: es) = do
      let e ← foldIn ctx guarded e
      let es ← foldAllIn ctx guarded es
      return e :: es :=
  rfl

end TypedExpr

end ComputedField
