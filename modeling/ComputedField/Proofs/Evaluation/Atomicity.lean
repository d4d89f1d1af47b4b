import ComputedField.Proofs.Evaluation.Frame
import ComputedField.Proofs.Evaluation.Soundness
import ComputedField.Proofs.Folding.Preservation
import ComputedField.Proofs.Typing.CheckShape
import Mathlib

/-!
# Statements are atomic

All that can fail in a statement comes before its first write: indices and the value at the end of a
chain are evaluated first, and the writes themselves cannot fail. So a statement that fails has
written nothing (`vars_of_failure`), and a program that fails leaves what the statements before the
failing one have stored (`evaluate_atomic`).
-/

set_option autoImplicit false

namespace ComputedField

namespace TypedExpr

open Run

variable {σ : Type} {D : Declarations} {functions : Functions σ} {ctx : MathContext}

/-! ## One statement -/

/-- **A statement that fails has written nothing.** -/
theorem vars_of_failure (hfs : functions.Conform D) {e : TypedExpr} (hs : e.Statement)
    (h : WellTyped D e) {w w' : World σ} {err : EvalError} (hw : w.vars.Conform D)
    (hresult : (eval functions ctx e).result w = (.error err, w')) : w'.vars = w.vars := by
  induction hs generalizing w w' err with
  | plain hp => exact (frames_eval functions ctx hp).vars_of_result hresult
  | @assignment tag x v hpx _ ih =>
    cases h with
    | @assignment _ _ _ place hx hv hplace ha hnote =>
      obtain ⟨root, name, t, u, hroot, ht, hu, hindices⟩ := hx.leadsToPlace hfs ctx place hplace
      rw [eval_assignment functions ctx tag hplace hroot, hpx.isAssignment] at hresult
      have hframes := frames_evalIndices functions ctx hpx
      rcases result_bind_eq_error.mp hresult with hresult | ⟨indices, w₁, hok, hresult⟩
      · exact hframes.vars_of_result hresult
      · obtain ⟨hpath, hw₁⟩ := hindices.ok hw hok
        rcases result_bind_eq_error.mp hresult with hresult | ⟨value, w₂, hvalue, hresult⟩
        · exact (ih hv hw₁ hresult).trans (hframes.vars_of_result hok)
        · -- all that is left is to write, and that cannot fail
          obtain ⟨hvt, hw₂⟩ := (hv.keeps_eval hfs).ok hw₁ hvalue
          rw [hu] at ha hresult
          obtain ⟨w₃, hwrite, -⟩ := writePlace_succeeds tag.token.pos root.token.pos ht hpath
            (hvt.castTo (Ty.widens_of_assignable ha)) hw₂
          rw [result_bind_of_ok hwrite] at hresult
          cases hresult

/-- Events reported before a statement have no influence on it. -/
theorem logs_eval (hfs : functions.Conform D) {e : TypedExpr} (hs : e.Statement)
    (h : WellTyped D e) : Logs (eval functions ctx e) := by
  induction hs with
  | plain hp => exact (frames_eval functions ctx hp).logs
  | @assignment tag x v hpx _ ih =>
    cases h with
    | @assignment _ _ _ place hx hv hplace _ _ =>
      obtain ⟨root, name, _, _, hroot, _, _, _⟩ := hx.leadsToPlace hfs ctx place hplace
      rw [eval_assignment functions ctx tag hplace hroot, hpx.isAssignment]
      refine (frames_evalIndices functions ctx hpx).logs.bind fun indices => ?_
      refine (ih hv).bind fun value => Logs.bind (logs_writePlace _ _ _ _ _) fun _ => ?_
      exact (Frames.pure _).logs

end TypedExpr

/-! ## Programs -/

namespace Environment

variable {σ : Type}

/-- The statements are evaluated one after the other, each succeeds, and the last one leaves the
environment and the host at the end. -/
inductive Completes (ctx : MathContext) :
    Environment σ → σ → List TypedExpr → Environment σ → σ → Prop where
  | nil (env : Environment σ) (host : σ) : Completes ctx env host [] env host
  | cons {env env' : Environment σ} {host host' : σ} {s : TypedExpr} {ss : List TypedExpr}
      {v : Value} : (env.evaluate host ctx s).outcome = .ok v →
      Completes ctx (env.evaluate host ctx s).environment (env.evaluate host ctx s).host ss
        env' host' →
      Completes ctx env host (s :: ss) env' host'

/-- An evaluation by itself and as a part of a run that began earlier. -/
theorem evaluate_of_result {env : Environment σ} {ctx : MathContext} {s : TypedExpr}
    (hlogs : Run.Logs (TypedExpr.eval env.functions ctx s)) {host : σ} {events : List Event}
    {outcome : Except EvalError Value} {w : World σ}
    (h : (TypedExpr.eval env.functions ctx s).result ⟨env.vars, host, events⟩ = (outcome, w)) :
    (env.evaluate host ctx s).outcome = outcome ∧
      (env.evaluate host ctx s).environment = { env with vars := w.vars } ∧
      (env.evaluate host ctx s).host = w.host := by
  have hsplit := hlogs (env.world host) events
  rw [show { env.world host with events := events ++ (env.world host).events } =
      (⟨env.vars, host, events⟩ : World σ) by simp [world], h] at hsplit
  rw [evaluate_eq]
  cases hresult : (TypedExpr.eval env.functions ctx s).result (env.world host) with
  | mk r w' =>
    rw [hresult] at hsplit
    cases hsplit
    exact ⟨rfl, rfl, rfl⟩

/-- A program fails at one of its statements: those before it complete, and it fails by itself where
they end. -/
theorem statements_of_failure {env : Environment σ} (henv : env.Conforms) {ctx : MathContext}
    {ss : List TypedExpr} (hss : ∀ s ∈ ss, s.Statement)
    (h : ∀ s ∈ ss, TypedExpr.WellTyped env.declarations s) {host : σ} {events : List Event}
    {last : Value} {err : EvalError} {w : World σ}
    (hresult : (TypedExpr.evalLast env.functions ctx last ss).result ⟨env.vars, host, events⟩ =
      (.error err, w)) :
    ∃ done failing rest env' host', ss = done ++ failing :: rest ∧
      Completes ctx env host done env' host' ∧
      (env'.evaluate host' ctx failing).outcome = .error err ∧
      (env'.evaluate host' ctx failing).environment = env' ∧
      { env with vars := w.vars } = env' := by
  induction ss generalizing env host events last with
  | nil =>
    rw [TypedExpr.evalLast_nil] at hresult
    cases hresult
  | cons s ss ih =>
    rw [TypedExpr.evalLast_cons] at hresult
    have hfs := henv.conform_functions
    have hstatement := hss s List.mem_cons_self
    have htyped := h s List.mem_cons_self
    have hlogs : Run.Logs (TypedExpr.eval env.functions ctx s) :=
      TypedExpr.logs_eval hfs hstatement htyped
    rcases Run.result_bind_eq_error.mp hresult with hfail | ⟨v, w₁, hok, hresult⟩
    · -- `s` is the statement that fails
      obtain ⟨houtcome, henvironment, -⟩ := evaluate_of_result hlogs hfail
      have hvars : w.vars = env.vars :=
        TypedExpr.vars_of_failure hfs hstatement htyped henv.vars hfail
      rw [hvars] at henvironment
      exact ⟨[], s, ss, env, host, rfl, .nil env host, houtcome, henvironment, by rw [hvars]⟩
    · -- `s` completes, and one of those behind it fails where `s` has ended
      obtain ⟨houtcome, henvironment, hhost⟩ := evaluate_of_result hlogs hok
      have hconform := ((htyped.keeps_eval hfs).ok henv.vars hok).2
      obtain ⟨hnext, hdeclarations⟩ := henv.withVars hconform
      obtain ⟨done, failing, rest, env', host', hsplit, hdone, hfailing, hsame, hvars⟩ :=
        ih hnext (fun x hx => hss x (List.mem_cons_of_mem s hx))
          (fun x hx => hdeclarations ▸ h x (List.mem_cons_of_mem s hx)) hresult
      refine ⟨s :: done, failing, rest, env', host', by rw [hsplit]; rfl, ?_, hfailing, hsame,
        hvars⟩
      refine .cons houtcome ?_
      rw [henvironment, hhost]
      exact hdone

/-- **Statements are atomic.** If the evaluation of a program fails, folded or not, it fails at one
of its statements: the statements before this one complete, the variables are as these have left
them, and there the statement fails by itself and changes no variable. -/
theorem evaluate_atomic {D : Declarations} {text : String} {checked e : TypedExpr}
    (hchecks : Checks D text checked)
    (he : e = checked ∨ ∃ foldCtx, (TypedExpr.fold foldCtx checked).outcome = .ok e)
    (env : Environment σ) (henv : env.Conforms) (hdeclarations : env.declarations = D) (host : σ)
    (ctx : MathContext) {err : EvalError} (hfail : (env.evaluate host ctx e).outcome = .error err) :
    ∃ done failing rest env' host', e.statements = done ++ failing :: rest ∧
      Completes ctx env host done env' host' ∧
      (env'.evaluate host' ctx failing).outcome = .error err ∧
      (env'.evaluate host' ctx failing).environment = env' ∧
      (env.evaluate host ctx e).environment = env' := by
  subst hdeclarations
  obtain ⟨hprogram, htyped⟩ : e.Program ∧ TypedExpr.WellTyped env.declarations e := by
    rcases he with rfl | ⟨foldCtx, hfold⟩
    · exact ⟨hchecks.program, hchecks.wellTyped⟩
    · have hsteps := (TypedExpr.foldsTo_of_foldIn hfold).steps
      exact ⟨hsteps.program hchecks.program, (hsteps.wellTyped hchecks.wellTyped).1⟩
  cases hresult : (TypedExpr.eval env.functions ctx e).result (env.world host) with
  | mk outcome w =>
    have hend : (env.evaluate host ctx e).outcome = outcome ∧
        (env.evaluate host ctx e).environment = { env with vars := w.vars } := by
      rw [evaluate_eq, hresult]
      exact ⟨rfl, rfl⟩
    rw [hend.1] at hfail
    subst hfail
    cases hprogram with
    | statement hs =>
      have hvars : w.vars = env.vars :=
        TypedExpr.vars_of_failure henv.conform_functions hs htyped henv.vars hresult
      rw [hvars] at hend
      exact ⟨[], e, [], env, host, hs.statements_eq, .nil env host, hend.1, hend.2, hend.2⟩
    | @sequence tag ss hss =>
      cases htyped with
      | sequence hwt _ _ =>
        rw [TypedExpr.eval_sequence] at hresult
        rcases Run.result_bind_eq_error.mp hresult with hresult | ⟨v, w', -, hresult⟩
        · obtain ⟨done, failing, rest, env', host', hsplit, hdone, hfailing, hsame, hvars⟩ :=
            statements_of_failure henv hss hwt hresult
          exact ⟨done, failing, rest, env', host', hsplit, hdone, hfailing, hsame,
            hend.2.trans hvars⟩
        · cases hresult

/-- The second statement fails behind the index of a chain, after a first one that completes. -/
theorem evaluate_atomic_chain :
    ∃ checked err done failing rest env' host',
      Checks (standard.declare (σ := Unit) "x" .integer).declarations
        "x = 1; x = x = 2 / (x - 1); x = 3" checked ∧
      ((standard.declare "x" .integer).evaluate () .standard checked).outcome = .error err ∧
      checked.statements = done ++ failing :: rest ∧
      Completes .standard (standard.declare "x" .integer) () done env' host' ∧
      (env'.evaluate host' .standard failing).outcome = .error err ∧
      (env'.evaluate host' .standard failing).environment = env' ∧
      ((standard.declare "x" .integer).evaluate () .standard checked).environment = env' := by
  obtain ⟨checked, hchecked, err, hfail⟩ : ∃ checked,
      checkText? (standard.declare (σ := Unit) "x" .integer).declarations
        "x = 1; x = x = 2 / (x - 1); x = 3" = some checked ∧
      ∃ err, ((standard.declare "x" .integer).evaluate () .standard checked).outcome = .error err :=
    ⟨_, by cbv, _, by cbv⟩
  have hchecks := checks_iff.mpr hchecked
  obtain ⟨done, failing, rest, env', host', hatomic⟩ := evaluate_atomic hchecks (.inl rfl) _
    (conforms_standard.declare "x" .integer) rfl () .standard hfail
  exact ⟨checked, err, done, failing, rest, env', host', hchecks, hfail, hatomic⟩

end Environment

end ComputedField
