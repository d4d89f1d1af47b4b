import ComputedField.Proofs.Folding.Preservation
import ComputedField.Proofs.Evaluation.Soundness
import ComputedField.Proofs.Typing.CheckShape
import Mathlib

/-!
# Type soundness over a session

A session evaluates accepted expressions one after the other, each in the environment that the one
before it left. One evaluation keeps the environment conforming and its declarations as they are
(`evaluate_sound`); hence every evaluation of a session does (`session_sound`).
-/

set_option autoImplicit false

namespace ComputedField

/-- The checker has accepted the expression against `D`; it may have been folded since, under any
contexts. The trees that the checker is given need not come from a text. -/
inductive Accepted (D : Declarations) : TypedExpr → Prop where
  | checked {tree : RawExpr} {e : TypedExpr} : RawExpr.check D tree = .ok e → Accepted D e
  | folded {ctx : MathContext} {e e' : TypedExpr} : Accepted D e →
      (TypedExpr.fold ctx e).outcome = .ok e' → Accepted D e'

theorem Accepted.wellTyped {D : Declarations} {e : TypedExpr} (h : Accepted D e) :
    TypedExpr.WellTyped D e := by
  induction h with
  | checked hcheck => exact RawExpr.wellTyped_of_check hcheck
  | folded _ hfold ih => exact (TypedExpr.foldsTo_of_foldIn hfold).steps.wellTyped ih |>.1

namespace Environment

variable {σ : Type}

/-- Every variable holds a value of its declared type, and every function that is not one of the
standard ones keeps to its return type. -/
structure HostConforms (env : Environment σ) : Prop where
  values : ∀ name v, env.vars.find? name = some v → v.value.HasType (some v.type)
  results : ∀ f ∈ env.functions.registered, f ∈ Library.functions.registered ∨ f.Conforms

theorem HostConforms.conforms {env : Environment σ} (h : env.HostConforms) : env.Conforms := by
  refine ⟨h.values, ?_⟩
  intro f hf
  rcases h.results f hf with hlibrary | hf
  · exact Library.conforms f hlibrary
  · exact hf

/-! ## One evaluation -/

/-- What a type promises of an outcome: a value of the type, or a failure over numbers. -/
def OutcomeHasType (t : Option Ty) : Except EvalError Value → Prop
  | .ok v => v.HasType t
  | .error e => e.fault.isArithmetic = true

theorem evaluate_sound {env : Environment σ} (henv : env.HostConforms) {e : TypedExpr}
    (h : Accepted env.declarations e) (host : σ) (ctx : MathContext) :
    OutcomeHasType e.type (env.evaluate host ctx e).outcome ∧
      (env.evaluate host ctx e).environment.HostConforms ∧
      (env.evaluate host ctx e).environment.declarations = env.declarations := by
  have hconforms := henv.conforms
  have hkeeps : Run.Keeps env.declarations false (TypedExpr.eval env.functions ctx e)
      (·.HasType e.type) := h.wellTyped.keeps_eval hconforms.conform_functions
  rw [evaluate_eq]
  cases hresult : (TypedExpr.eval env.functions ctx e).result (env.world host) with
  | mk outcome w =>
    have hend : OutcomeHasType e.type outcome ∧ w.vars.Conform env.declarations := by
      cases outcome with
      | ok v => exact hkeeps.ok hconforms.vars hresult
      | error err => exact hkeeps.error hconforms.vars hresult
    obtain ⟨houtcome, hvars⟩ := hend
    exact ⟨houtcome, ⟨hvars.typed, henv.results⟩, (hconforms.withVars hvars).2⟩

/-! ## Many evaluations -/

/-- The results of evaluating some expressions, each in the environment and with the host that the
one before it left, together with the expressions. -/
def session (env : Environment σ) (host : σ) :
    List (MathContext × TypedExpr) → List (TypedExpr × Evaluated σ)
  | [] => []
  | (ctx, e) :: rest =>
    let result := env.evaluate host ctx e
    (e, result) :: session result.environment result.host rest

/-- **Type soundness over a session.** Expressions that were accepted against a conforming
environment, folded or not, are evaluated one after the other: each succeeds with a value of its
static type, which is null where the type is unknown, or fails over numbers; never for a fault of
kind, an unknown name or an illegal target. After each, the environment still conforms. -/
theorem session_sound {env : Environment σ} (henv : env.HostConforms) (host : σ)
    {steps : List (MathContext × TypedExpr)}
    (hsteps : ∀ step ∈ steps, Accepted env.declarations step.2) :
    ∀ r ∈ env.session host steps, OutcomeHasType r.1.type r.2.outcome ∧
      r.2.environment.HostConforms ∧ r.2.environment.declarations = env.declarations := by
  induction steps generalizing env host with
  | nil => intro r hr; cases hr
  | cons step rest ih =>
    obtain ⟨ctx, e⟩ := step
    obtain ⟨houtcome, hnext, hdeclarations⟩ :=
      evaluate_sound henv (hsteps (ctx, e) List.mem_cons_self) host ctx
    intro r hr
    rcases List.mem_cons.mp hr with rfl | hr
    · exact ⟨houtcome, hnext, hdeclarations⟩
    · -- the declarations are the old ones, so what was accepted before is accepted now
      have hrest : ∀ step ∈ rest,
          Accepted (env.evaluate host ctx e).environment.declarations step.2 := by
        intro step hstep
        rw [hdeclarations]
        exact hsteps step (List.mem_cons_of_mem _ hstep)
      obtain ⟨hr₁, hr₂, hr₃⟩ := ih hnext _ hrest r hr
      exact ⟨hr₁, hr₂, hr₃.trans hdeclarations⟩

/-- An assignment, and a division by what it has stored. -/
theorem session_sound_division :
    ∃ assignment division,
      checkText? (standard.declare (σ := Unit) "x" .integer).declarations "x = 1 + 1" =
        some assignment ∧
      checkText? (standard.declare (σ := Unit) "x" .integer).declarations "10 / (x - 2)" =
        some division ∧
      ∀ r ∈ (standard.declare "x" .integer).session () [(.standard, assignment),
        (.standard, division)], OutcomeHasType r.1.type r.2.outcome ∧
        r.2.environment.HostConforms ∧
        r.2.environment.declarations = (standard.declare (σ := Unit) "x" .integer).declarations := by
  obtain ⟨assignment, hassignment⟩ : ∃ e, checkText?
      (standard.declare (σ := Unit) "x" .integer).declarations "x = 1 + 1" = some e :=
    ⟨_, by cbv⟩
  obtain ⟨division, hdivision⟩ : ∃ e, checkText?
      (standard.declare (σ := Unit) "x" .integer).declarations "10 / (x - 2)" = some e :=
    ⟨_, by cbv⟩
  refine ⟨assignment, division, hassignment, hdivision, ?_⟩
  refine session_sound ⟨(conforms_standard.declare "x" .integer).values, fun f hf => .inl hf⟩ () ?_
  intro step hstep
  simp only [List.mem_cons, List.not_mem_nil, or_false] at hstep
  rcases hstep with rfl | rfl
  · obtain ⟨tree, -, hcheck⟩ := checks_iff.mpr hassignment
    exact .checked hcheck
  · obtain ⟨tree, -, hcheck⟩ := checks_iff.mpr hdivision
    exact .checked hcheck

end Environment

end ComputedField
