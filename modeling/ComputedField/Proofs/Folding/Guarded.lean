import ComputedField.Proofs.Folding.Step

/-!
# Guarded places

An operation over constants that fails is an error where evaluation is bound to reach it, and is
left as it is in a guarded place. So folding in a guarded place never fails (`foldIn_guarded`),
whatever stands there.
-/

set_option autoImplicit false

namespace ComputedField

namespace TypedExpr

variable {ctx : MathContext} {tag : Tag (Option Ty)}

theorem constant_guarded (tag : Tag (Option Ty)) (r : Except EvalFault Value) :
    ∃ folded, (constant true tag r).outcome = .ok folded := by
  cases r with
  | error fault => exact ⟨none, rfl⟩
  | ok v =>
    cases hl : Literal.ofValue? (v.castTo tag.note) with
    | none => exact ⟨none, by simp only [constant, hl]; rfl⟩
    | some l => exact ⟨some (.literal tag l), by simp only [constant, hl]; rfl⟩

theorem foldUnary_guarded (op : UnaryOp) (x : TypedExpr) :
    ∃ e', (foldUnary true tag op x).outcome = .ok e' := by
  unfold foldUnary
  by_cases hop : op = .group
  · rw [if_pos hop]
    exact ⟨x, rfl⟩
  · simp only [hop, if_false]
    cases hv : x.literal? with
    | none => exact ⟨_, rfl⟩
    | some v =>
      obtain ⟨folded, hfolded⟩ := constant_guarded tag (op.apply v.toValue)
      exact ⟨folded.getD (.unary tag op x), by simp [hfolded]⟩

theorem foldBinary_guarded (op : BinaryOp) (l r : TypedExpr) :
    ∃ e', (foldBinary ctx true tag op l r).outcome = .ok e' := by
  unfold foldBinary
  split
  · rename_i v w _ _
    obtain ⟨folded, hfolded⟩ := constant_guarded tag (op.apply ctx v.toValue w.toValue)
    exact ⟨folded.getD (.binary tag op l r), by simp [hfolded]⟩
  · split
    · exact ⟨.literal tag .null, rfl⟩
    · exact ⟨.binary tag op l r, rfl⟩

theorem foldByRight_ok (c : Connective) (token : Token) (l r : TypedExpr) :
    ∃ e', (foldByRight c token l r).outcome = .ok e' := by
  unfold foldByRight
  split
  · split
    · exact ⟨_, rfl⟩
    · exact ⟨_, rfl⟩
  · exact ⟨_, rfl⟩
  · exact ⟨_, rfl⟩
  · exact ⟨_, rfl⟩

theorem foldAllIn_guarded {es : List TypedExpr}
    (h : ∀ e ∈ es, ∃ e', (foldIn ctx true e).outcome = .ok e') :
    ∃ es', (foldAllIn ctx true es).outcome = .ok es' := by
  induction es with
  | nil =>
    rw [foldAllIn_nil]
    exact ⟨[], rfl⟩
  | cons e es ih =>
    obtain ⟨e', he⟩ := h e List.mem_cons_self
    obtain ⟨es', hes⟩ := ih fun x hx => h x (List.mem_cons_of_mem e hx)
    rw [foldAllIn_cons]
    exact ⟨e' :: es', by simp [he, hes]⟩

/-- **Folding in a guarded place never fails.** -/
theorem foldIn_guarded (ctx : MathContext) (e : TypedExpr) :
    ∃ e', (foldIn ctx true e).outcome = .ok e' := by
  induction e using Expr.induct with
  | literal tag v =>
    rw [foldIn_literal]
    exact ⟨_, rfl⟩
  | var tag name =>
    rw [foldIn_var]
    exact ⟨_, rfl⟩
  | unary tag op x ih =>
    obtain ⟨x', hx⟩ := ih
    rw [foldIn_unary, Traced.outcome_bind, hx]
    exact foldUnary_guarded op x'
  | binary tag op l r ihl ihr =>
    obtain ⟨l', hl⟩ := ihl
    obtain ⟨r', hr⟩ := ihr
    rcases op.propagatesNull_or_connective with hop | ⟨c, rfl⟩
    · rw [foldIn_binary hop, Traced.outcome_bind, hl, ok_bind, Traced.outcome_bind, hr, ok_bind]
      exact foldBinary_guarded op l' r'
    · rw [foldIn_connective, Traced.outcome_bind, hl, ok_bind]
      unfold foldRight
      cases hrole : role? c l' with
      | none =>
        simp only [Traced.outcome_bind, hr, ok_bind]
        exact foldByRight_ok c tag.token l' r'
      | some role =>
        cases role with
        | determining => exact ⟨truthLiteral (some c.determining) tag.token, rfl⟩
        | neutral => exact ⟨asBoolean r', by simp [hr]⟩
        | unknown => exact ⟨foldUnknownLeft c tag.token l' r', by simp [hr]⟩
  | assignment tag x v ihx ihv =>
    obtain ⟨x', hx⟩ := ihx
    obtain ⟨v', hv⟩ := ihv
    rw [foldIn_assignment]
    exact ⟨.assignment tag x' v', by simp [hx, hv]⟩
  | conditional tag c x y ihc ihx ihy =>
    obtain ⟨c', hc⟩ := ihc
    obtain ⟨x', hx⟩ := ihx
    obtain ⟨y', hy⟩ := ihy
    rw [foldIn_conditional, Traced.outcome_bind, hc, ok_bind]
    unfold foldBranches
    cases htaken : takenBranch? c' with
    | none => exact ⟨.conditional tag c' x' y', by simp [hx, hy]⟩
    | some taken =>
      cases taken with
      | true =>
        cases hz : adapted? x' tag.note with
        | some z => exact ⟨z, by simp [hx, hz]⟩
        | none => exact ⟨.conditional tag c' x' y', by simp [hx, hy, hz]⟩
      | false =>
        cases hz : adapted? y' tag.note with
        | some z => exact ⟨z, by simp [hy, hz]⟩
        | none => exact ⟨.conditional tag c' x' y', by simp [hx, hy, hz]⟩
  | element tag a i iha ihi =>
    obtain ⟨a', ha⟩ := iha
    obtain ⟨i', hi⟩ := ihi
    rw [foldIn_element]
    exact ⟨.element tag a' i', by simp [ha, hi]⟩
  | call tag f as ih =>
    obtain ⟨as', has⟩ := foldAllIn_guarded ih
    rw [foldIn_call]
    exact ⟨.call tag f as', by simp [has]⟩
  | sequence tag ss ih =>
    obtain ⟨ss', hss⟩ := foldAllIn_guarded ih
    exact ⟨ofFolded tag ss', by rw [foldIn_sequence, hss, ok_bind]⟩

end TypedExpr

end ComputedField
