import ComputedField.Compilation
import ComputedField.Proofs.Evaluation.Echoes
import ComputedField.Proofs.Expr.RoundTrip
import ComputedField.Proofs.Folding.Agreement
import Mathlib

/-!
# Compiling what was written

A formula that has been folded can be written and compiled again. The text does not tell of the
types that folding has noted on nulls, and it gives every decimal fractional digits. Where nothing
hangs on these (`TypedExpr.restorable`, `TypedExpr.steady`), the text runs as the formula that was
folded does (`run_text`). Elsewhere it may not even compile (`compile_text_overload`).
-/

set_option autoImplicit false

namespace ComputedField

/-- Where both types are known, they have to be the same. -/
theorem checkExpected_eq_ok {expected : Option Ty} {x e : TypedExpr} :
    checkExpected expected x = .ok e ↔
      x = e ∧ ∀ t u, expected = some t → e.type = some u → t = u := by
  unfold checkExpected
  split
  · rename_i t found hfound
    split
    · rename_i hsame
      constructor
      · intro h
        cases h
        refine ⟨rfl, ?_⟩
        rintro t' u ht hu
        rw [hfound] at hu
        cases ht
        cases hu
        exact hsame
      · rintro ⟨rfl, -⟩
        rfl
    · rename_i hdiffer
      constructor
      · intro h
        cases h
      · rintro ⟨rfl, h⟩
        exact absurd (h _ _ rfl hfound) hdiffer
  · rename_i hunknown
    constructor
    · intro h
      cases h
      exact ⟨rfl, fun t u ht hu => (hunknown t u ht hu).elim⟩
    · rintro ⟨rfl, -⟩
      rfl

theorem checkExpected_eq_error {expected : Option Ty} {e : TypedExpr} {err : CompileError} :
    checkExpected expected e = .error err ↔
      ∃ t u, expected = some t ∧ e.type = some u ∧ t ≠ u ∧ err = .mismatch t u := by
  unfold checkExpected
  split
  · rename_i t found hfound
    split
    · rename_i hsame
      simp [hfound, hsame]
    · rename_i hdiffer
      simp [hfound, hdiffer, eq_comm]
  · rename_i hunknown
    simp only [reduceCtorEq, false_iff, not_exists]
    rintro t u ⟨ht, hu, -⟩
    exact hunknown t u ht hu

/-- The steps of a compilation that succeeds. -/
theorem compile_eq_ok {D : Declarations} {options : CompileOptions} {expected : Option Ty}
    {text : String} {e : TypedExpr} :
    (compile D options expected text).outcome = .ok e ↔
      (options.diagnose = true → ∃ tokens, tokenize text = .ok tokens) ∧
        (∃ checked, Checks D text checked ∧
          (if options.simplify then (TypedExpr.fold options.context checked).outcome
            else .ok checked) = .ok e) ∧
        ∀ t u, expected = some t → e.type = some u → t = u := by
  have hfold (x : TypedExpr) :
      ((TypedExpr.fold options.context x).mapError CompileError.folding).outcome =
        (TypedExpr.fold options.context x).outcome.mapError .folding := rfl
  obtain ⟨ctx, simplify, diagnose⟩ := options
  simp only at hfold
  cases diagnose <;> cases simplify <;>
    simp [compile, Checks, bind_eq_ok, mapError_eq_ok, checkExpected_eq_ok, hfold] <;> grind

/-- Once a text is checked, it is folded if that is asked for, and compared with what is expected. -/
theorem compile_of_checks {D : Declarations} {options : CompileOptions} {expected : Option Ty}
    {text : String} {checked : TypedExpr}
    (hscan : options.diagnose = true → ∃ tokens, tokenize text = .ok tokens)
    (hchecks : Checks D text checked) :
    (compile D options expected text).outcome =
      (if options.simplify then
          (TypedExpr.fold options.context checked).outcome.mapError .folding
        else .ok checked) >>= checkExpected expected := by
  have hfold (x : TypedExpr) :
      ((TypedExpr.fold options.context x).mapError CompileError.folding).outcome =
        (TypedExpr.fold options.context x).outcome.mapError .folding := rfl
  obtain ⟨tree, hread, hcheck⟩ := hchecks
  obtain ⟨ctx, simplify, diagnose⟩ := options
  simp only at hfold hscan
  cases diagnose with
  | false => cases simplify <;> simp [compile, hread, hcheck, hfold, Except.mapError]
  | true =>
    obtain ⟨tokens, htokens⟩ := hscan rfl
    cases simplify <;> simp [compile, htokens, hread, hcheck, hfold, Except.mapError]

/-- Only a checked text can be of another type than the expected one. -/
theorem checks_of_compile_mismatch {D : Declarations} {options : CompileOptions}
    {expected : Option Ty} {text : String} {t u : Ty}
    (h : (compile D options expected text).outcome = .error (.mismatch t u)) :
    (options.diagnose = true → ∃ tokens, tokenize text = .ok tokens) ∧
      ∃ checked, Checks D text checked := by
  have hread (e : ReadError) : CompileError.ofReadError e ≠ .mismatch t u := by
    cases e <;> simp [CompileError.ofReadError]
  obtain ⟨ctx, simplify, diagnose⟩ := options
  cases diagnose <;>
    simp [compile, Checks, bind_eq_error, mapError_eq_ok, mapError_eq_error, hread] at h ⊢ <;> grind

/-! ## Runs of texts -/

/-- Two runs end alike: with values that are the same or with two failures, with variables that
stand for one another, and in the same state of the host. -/
structure Ran.Alike {σ : Type} (kept : String → Bool) (a b : Ran σ) : Prop where
  value : Option.Rel (fun v w => w.same v = true) a.outcome.toOption b.outcome.toOption
  vars : a.environment.vars.Matches kept b.environment.vars
  functions : b.environment.functions = a.environment.functions
  host : b.host = a.host

/-- Where all variables are kept, the environments are the same. -/
theorem Ran.Alike.environment_eq {σ : Type} {kept : String → Bool} {a b : Ran σ}
    (h : Ran.Alike kept a b) (hkept : ∀ name, kept name = true) :
    b.environment = a.environment := by
  have hvars := h.vars.eq hkept
  have hfunctions := h.functions
  generalize a.environment = env at hvars hfunctions
  generalize b.environment = env' at hvars hfunctions
  cases env
  cases env'
  exact congrArg₂ Environment.mk hvars hfunctions

namespace Environment

variable {σ : Type} {env : Environment σ} {host : σ} {options : CompileOptions} {text : String}

/-- A text that compiles is run as what it compiles to. -/
theorem run_of_compile (host : σ) {e : TypedExpr}
    (h : (compile env.declarations options none text).outcome = .ok e) :
    (env.run host options text).outcome =
        (env.evaluate host options.context e).outcome.mapError .evaluate ∧
      (env.run host options text).environment =
        (env.evaluate host options.context e).environment ∧
      (env.run host options text).host = (env.evaluate host options.context e).host := by
  simp only [run, h, and_self]

theorem run_alike {kept : String → Bool} {text' : String} {e e' : TypedExpr}
    (h : (compile env.declarations options none text).outcome = .ok e)
    (h' : (compile env.declarations options none text').outcome = .ok e')
    (halike : Run.SameEnd kept (Value.Matches false)
      ((TypedExpr.eval env.functions options.context e).result (env.world host))
      ((TypedExpr.eval env.functions options.context e').result (env.world host))) :
    (env.run host options text).Alike kept (env.run host options text') := by
  obtain ⟨hvalue, henvironment, hhost⟩ := run_of_compile host h
  obtain ⟨hvalue', henvironment', hhost'⟩ := run_of_compile host h'
  rw [evaluate_eq] at hvalue henvironment hhost hvalue' henvironment' hhost'
  generalize (TypedExpr.eval env.functions options.context e).result (env.world host) = r at *
  generalize (TypedExpr.eval env.functions options.context e').result (env.world host) = r' at *
  cases halike with
  | ok hvalues hw =>
    refine ⟨?_, ?_, ?_, ?_⟩
    · rw [hvalue, hvalue']
      exact .some hvalues.same
    · rw [henvironment, henvironment']
      exact hw.vars
    · rw [henvironment, henvironment']
    · rw [hhost, hhost']
      exact hw.host
  | error hw =>
    refine ⟨?_, ?_, ?_, ?_⟩
    · rw [hvalue, hvalue']
      exact .none
    · rw [henvironment, henvironment']
      exact hw.vars
    · rw [henvironment, henvironment']
    · rw [hhost, hhost']
      exact hw.host

/-- **A folded formula that is written runs as the formula does.** If a text compiles with folding
to an expression in which nothing hangs on what its words do not tell, the words of this expression
compile, and running them ends as running the text without folding does. The variables that are kept
hold the very same decimals then, and the others the same numbers. -/
theorem run_text {expected : Option Ty} {ctx : MathContext} {diagnose : Bool} {folded : TypedExpr}
    {kept : String → Bool}
    (hcompile : (compile env.declarations ⟨ctx, true, diagnose⟩ expected text).outcome = .ok folded)
    (hrestorable : folded.restorable = true) (hsteady : folded.steady kept false = true)
    (henv : env.Conforms) :
    ∃ reread,
      (compile env.declarations ⟨ctx, false, diagnose⟩ none folded.text).outcome = .ok reread ∧
        ∀ host, (env.run host ⟨ctx, false, diagnose⟩ text).Alike kept
          (env.run host ⟨ctx, false, diagnose⟩ folded.text) := by
  obtain ⟨hscan, ⟨checked, hchecks, hfold⟩, -⟩ := compile_eq_ok.mp hcompile
  have hsteps := (TypedExpr.foldsTo_of_foldIn hfold).steps
  have hwell := (hsteps.wellTyped hchecks.wellTyped).1
  have hprogram := hsteps.program hchecks.program
  have hformula : folded.Formula := by
    obtain ⟨tree, hread, hcheck⟩ := hchecks
    exact hsteps.formula (RawExpr.formula_of_check (RawExpr.formula_of_ofText hread) hcheck)
  obtain ⟨tokens, u, htokens, -, hu, hbare⟩ := hformula.ofText_text_written
  obtain ⟨reread, hcheck, hechoes, -⟩ :=
    TypedExpr.rereads_of_program hprogram hwell hrestorable u hbare
  have hreread : Checks env.declarations folded.text reread := ⟨u, hu, hcheck⟩
  have horiginal : (compile env.declarations ⟨ctx, false, diagnose⟩ none text).outcome =
      .ok checked := compile_eq_ok.mpr ⟨hscan, ⟨checked, hchecks, rfl⟩, fun _ _ h => by cases h⟩
  have hwritten : (compile env.declarations ⟨ctx, false, diagnose⟩ none folded.text).outcome =
      .ok reread :=
    compile_eq_ok.mpr ⟨fun _ => ⟨tokens, htokens⟩, ⟨reread, hreread, rfl⟩, fun _ _ h => by cases h⟩
  refine ⟨reread, hwritten, fun host => run_alike horiginal hwritten ?_⟩
  have hagrees := TypedExpr.Steps.agrees henv.conform_functions hsteps hchecks.wellTyped
    hchecks.program (env.world host) henv.vars
  rw [← hagrees]
  exact hechoes.alike henv.conform_functions hprogram hwell hreread.wellTyped hsteady _ _
    ⟨.refl kept _, rfl⟩ henv.vars henv.vars

/-- A negative base, a widened branch and a call, none of which hangs on a forgotten type, and a
remainder, which has no fractional digits, that is stored and compared. -/
theorem run_text_negative_base :
    ∃ env : Environment Unit, env = (standard.declare "n" .integer).declare "x" .decimal ∧
      ∃ folded reread,
        (compile env.declarations ⟨.standard, true, true⟩ none
          "x = 7.5 % 4.0; -2 ^ n + (n > x ? abs(n) : 0.5)").outcome = .ok folded ∧
        folded.restorable = true ∧ folded.steady (· == "n") false = true ∧
        (compile env.declarations ⟨.standard, false, true⟩ none folded.text).outcome = .ok reread ∧
        ∀ host, (env.run host ⟨.standard, false, true⟩
            "x = 7.5 % 4.0; -2 ^ n + (n > x ? abs(n) : 0.5)").Alike (· == "n")
          (env.run host ⟨.standard, false, true⟩ folded.text) := by
  refine ⟨_, rfl, ?_⟩
  obtain ⟨folded, hcompile, hrestorable, hsteady⟩ : ∃ folded,
      (compile ((standard.declare (σ := Unit) "n" .integer).declare "x" .decimal).declarations
        ⟨.standard, true, true⟩ none
        "x = 7.5 % 4.0; -2 ^ n + (n > x ? abs(n) : 0.5)").outcome = .ok folded ∧
      folded.restorable = true ∧ folded.steady (· == "n") false = true :=
    ⟨_, by cbv, by cbv, by cbv⟩
  obtain ⟨reread, hreread, hruns⟩ := run_text hcompile hrestorable hsteady
    ((conforms_standard.declare "n" .integer).declare "x" .decimal)
  exact ⟨folded, reread, hcompile, hrestorable, hsteady, hreread, hruns⟩

/-- The null that stands for a sum is written without its type, and another function is selected for
it: the formula has a value, and the text of the folded formula does not compile. -/
theorem compile_text_overload :
    ∃ folded,
      (compile (standard (σ := Unit)).declarations ⟨.standard, true, false⟩ none
        "coalesce(null + 1, null) + 1").outcome = .ok folded ∧
      folded.text = "coalesce(null, null) + 1" ∧
      (standard.run () ⟨.standard, false, false⟩ "coalesce(null + 1, null) + 1").outcome
        = .ok .null ∧
      (standard.run () ⟨.standard, false, false⟩ folded.text).outcome.toOption = none := by
  refine ⟨_, by cbv, by cbv, by cbv, by cbv⟩

end Environment

end ComputedField
