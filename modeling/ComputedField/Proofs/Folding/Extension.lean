import ComputedField.Environment.Library
import ComputedField.Proofs.Folding.Guarded
import ComputedField.Proofs.Typing.CheckShape
import Mathlib

/-!
# The guarded mode extends the other one

Folding in a guarded place and folding outside differ in what they do about a constant that fails.
Where folding outside succeeds, there is none, and both are the same computation: they report the
same events and come to the same tree. Folding in a guarded place succeeds elsewhere too
(`foldIn_extends`). The steps that a node takes extend one another, and sequences of steps do if
their parts do (`Traced.Extends.bind`).
-/

set_option autoImplicit false

namespace ComputedField

/-! ## Computations that agree where one of them succeeds -/

namespace Traced

variable {ε α β : Type} {x y : Traced ε α} {f g : α → Traced ε β}

/-- Where `y` succeeds, `x` is the same computation. -/
def Extends (x y : Traced ε α) : Prop := ∀ a, y.outcome = .ok a → x = y

theorem Extends.refl (x : Traced ε α) : x.Extends x := fun _ _ => rfl

/-- What follows has to agree only after a result that the first part comes to. -/
theorem bind_congr {x : Traced ε α} (h : ∀ a, x.outcome = .ok a → f a = g a) :
    x >>= f = x >>= g := by
  obtain ⟨events, outcome⟩ := x
  cases outcome with
  | error e => rfl
  | ok a =>
    show Traced.mk (events ++ (f a).events) (f a).outcome
      = Traced.mk (events ++ (g a).events) (g a).outcome
    rw [h a rfl]

theorem Extends.bind (h : x.Extends y) (hf : ∀ a, (f a).Extends (g a)) :
    (x >>= f).Extends (y >>= g) := by
  intro b hb
  rw [outcome_bind] at hb
  obtain ⟨a, ha, hga⟩ := bind_eq_ok.mp hb
  rw [h a ha]
  refine bind_congr fun a' ha' => ?_
  obtain rfl := Except.ok.inj (ha.symm.trans ha')
  exact hf a b hga

/-- The same first part, or one that extends it, before the same steps. -/
theorem Extends.bind_left (h : x.Extends y) (f : α → Traced ε β) : (x >>= f).Extends (y >>= f) :=
  h.bind fun a => .refl (f a)

theorem Extends.bind_right (x : Traced ε α) (hf : ∀ a, (f a).Extends (g a)) :
    (x >>= f).Extends (x >>= g) :=
  (Extends.refl x).bind hf

theorem Extends.outcome_eq (h : x.Extends y) {a : α} (ha : y.outcome = .ok a) :
    x.outcome = .ok a := by
  rw [h a ha, ha]

end Traced

namespace TypedExpr

variable {ctx : MathContext} {tag : Tag (Option Ty)}

/-! ## Nodes over folded operands -/

/-- The two modes part at a failure only. -/
theorem constant_extends (r : Except EvalFault Value) :
    (constant true tag r).Extends (constant false tag r) := by
  intro folded h
  cases r with
  | ok v => rfl
  | error fault => cases h

theorem foldUnary_extends (op : UnaryOp) (x : TypedExpr) :
    (foldUnary true tag op x).Extends (foldUnary false tag op x) := by
  unfold foldUnary
  by_cases hop : op = .group
  · simp only [hop, if_true]
    exact .refl _
  · simp only [hop, if_false]
    cases x.literal? with
    | none => exact .refl _
    | some v => exact (constant_extends _).bind_left _

theorem foldBinary_extends (op : BinaryOp) (l r : TypedExpr) :
    (foldBinary ctx true tag op l r).Extends (foldBinary ctx false tag op l r) := by
  unfold foldBinary
  split
  · exact (constant_extends _).bind_left _
  · exact .refl _

/-- Only an operand that evaluation is bound to reach is folded in the mode of the connective. -/
theorem foldRight_extends (c : Connective) (l : TypedExpr) {r : TypedExpr}
    (h : (foldIn ctx true r).Extends (foldIn ctx false r)) :
    (foldRight ctx true tag c l r).Extends (foldRight ctx false tag c l r) := by
  unfold foldRight
  cases role? c l with
  | none => exact .refl _
  | some role =>
    cases role with
    | determining => exact .refl _
    | neutral => exact .bind_right _ fun _ => h.bind_left _
    | unknown => exact h.bind_left _

/-- Only the branch that a constant condition takes is folded in the mode of the conditional. -/
theorem foldBranches_extends (c : TypedExpr) {x y : TypedExpr}
    (hx : (foldIn ctx true x).Extends (foldIn ctx false x))
    (hy : (foldIn ctx true y).Extends (foldIn ctx false y)) :
    (foldBranches ctx true tag c x y).Extends (foldBranches ctx false tag c x y) := by
  unfold foldBranches
  cases takenBranch? c with
  | none => exact .refl _
  | some taken =>
    cases taken with
    | true => exact hx.bind_left _
    | false => exact hy.bind_left _

/-! ## The whole tree -/

theorem foldAllIn_extends {es : List TypedExpr}
    (h : ∀ e ∈ es, (foldIn ctx true e).Extends (foldIn ctx false e)) :
    (foldAllIn ctx true es).Extends (foldAllIn ctx false es) := by
  induction es with
  | nil => exact .refl _
  | cons e es ih =>
    rw [foldAllIn_cons, foldAllIn_cons]
    refine (h e List.mem_cons_self).bind fun _ => ?_
    exact (ih fun x hx => h x (List.mem_cons_of_mem e hx)).bind_left _

theorem extends_foldIn (ctx : MathContext) (e : TypedExpr) :
    (foldIn ctx true e).Extends (foldIn ctx false e) := by
  induction e using Expr.induct with
  | literal tag v => exact .refl _
  | var tag name => exact .refl _
  | unary tag op x ih =>
    rw [foldIn_unary, foldIn_unary]
    exact ih.bind fun x' => foldUnary_extends op x'
  | binary tag op l r ihl ihr =>
    rcases op.propagatesNull_or_connective with hop | ⟨c, rfl⟩
    · rw [foldIn_binary hop, foldIn_binary hop]
      exact ihl.bind fun l' => ihr.bind fun r' => foldBinary_extends op l' r'
    · -- what evaluation may pass over is folded in the guarded mode on both sides
      rw [foldIn_connective, foldIn_connective]
      exact ihl.bind fun l' => foldRight_extends c l' ihr
  | assignment tag x v ihx ihv =>
    rw [foldIn_assignment, foldIn_assignment]
    exact ihx.bind fun _ => ihv.bind_left _
  | conditional tag c x y ihc ihx ihy =>
    rw [foldIn_conditional, foldIn_conditional]
    exact ihc.bind fun c' => foldBranches_extends c' ihx ihy
  | element tag a i iha ihi =>
    rw [foldIn_element, foldIn_element]
    exact iha.bind fun _ => ihi.bind_left _
  | call tag f as ih =>
    rw [foldIn_call, foldIn_call]
    exact (foldAllIn_extends ih).bind_left _
  | sequence tag ss ih => exact (foldAllIn_extends ih).bind_left _

/-- **The guarded mode is total and extends the other one.** Whatever the tree, folding it in a
guarded place succeeds; and if folding it where evaluation is bound to come succeeds, folding it in
a guarded place gives the identical tree, and reports the same events on the way. -/
theorem foldIn_extends (ctx : MathContext) (e : TypedExpr) :
    (∃ e', (foldIn ctx true e).outcome = .ok e') ∧
    ∀ e', (fold ctx e).outcome = .ok e' →
      (foldIn ctx true e).outcome = .ok e' ∧ (foldIn ctx true e).events = (fold ctx e).events := by
  refine ⟨foldIn_guarded ctx e, fun e' he' => ?_⟩
  have hextends := extends_foldIn ctx e
  exact ⟨hextends.outcome_eq he', congrArg Traced.events (hextends e' he')⟩

/-- Both modes leave a division by zero behind a variable and evaluate what stands before it. -/
theorem foldIn_extends_division :
    ∃ checked folded, checkText? ((Environment.standard (σ := Unit)).declare "flag"
        .boolean).declarations "(2 > 1 && flag) && 1 / 0 == 1" = some checked ∧
      (fold .standard checked).outcome = .ok folded ∧
      (foldIn .standard true checked).outcome = .ok folded := by
  obtain ⟨checked, hchecked, folded, hfold⟩ : ∃ checked,
      checkText? ((Environment.standard (σ := Unit)).declare "flag" .boolean).declarations
        "(2 > 1 && flag) && 1 / 0 == 1" = some checked ∧
      ∃ folded, (fold .standard checked).outcome = .ok folded :=
    ⟨_, by cbv, _, by cbv⟩
  exact ⟨checked, folded, hchecked, hfold, ((foldIn_extends .standard checked).2 folded hfold).1⟩

end TypedExpr

end ComputedField
