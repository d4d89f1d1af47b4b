import ComputedField.Proofs.Folding.Agreement
import ComputedField.Proofs.Typing.CheckShape
import Mathlib

/-!
# Folding and evaluation

Where folding succeeds, the folded formula does what the formula does (`evaluate_fold`): the same
value or the same failure, the same variables, the same calls.
-/

set_option autoImplicit false

namespace ComputedField

namespace Environment

variable {σ : Type}

/-- **Folding is sound.** In every conforming environment a folded formula evaluates as the formula
does: to the same outcome, the same variables, the same state of the host and the same events, among
which are all calls with their arguments. -/
theorem evaluate_fold {D : Declarations} {text : String} {checked folded : TypedExpr}
    {ctx : MathContext} (hchecks : Checks D text checked)
    (hfold : (TypedExpr.fold ctx checked).outcome = .ok folded) (env : Environment σ)
    (henv : env.Conforms) (hdeclarations : env.declarations = D) (host : σ) :
    env.evaluate host ctx folded = env.evaluate host ctx checked := by
  subst hdeclarations
  have hsteps := (TypedExpr.foldsTo_of_foldIn hfold).steps
  have hagrees := TypedExpr.Steps.agrees henv.conform_functions hsteps hchecks.wellTyped
    hchecks.program
  exact env.evaluate_congr host ctx (hagrees (env.world host) henv.vars)

/-- A formula from which folding drops an operand and a pair of parentheses. -/
theorem evaluate_fold_neutral :
    ∃ checked folded, Checks (standard.declare (σ := Unit) "x" .decimal).declarations
        "true && (x > 1 + 1)" checked ∧
      (TypedExpr.fold .standard checked).outcome = .ok folded ∧
      (standard.declare "x" .decimal).evaluate () .standard folded =
        (standard.declare "x" .decimal).evaluate () .standard checked := by
  obtain ⟨checked, hchecked, folded, hfold⟩ : ∃ checked,
      checkText? (standard.declare (σ := Unit) "x" .decimal).declarations
        "true && (x > 1 + 1)" = some checked ∧
      ∃ folded, (TypedExpr.fold .standard checked).outcome = .ok folded :=
    ⟨_, by cbv, _, by cbv⟩
  have hchecks := checks_iff.mpr hchecked
  exact ⟨checked, folded, hchecks, hfold,
    evaluate_fold hchecks hfold _ (conforms_standard.declare "x" .decimal) rfl ()⟩

end Environment

end ComputedField
