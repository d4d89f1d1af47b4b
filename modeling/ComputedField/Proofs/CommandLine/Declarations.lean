import ComputedField.CommandLine.Answer
import ComputedField.Proofs.Compilation
import ComputedField.Proofs.Evaluation.Session
import Mathlib

/-!
# Environments of the command line

A declaration evaluates its formula without asking for a type, and the cast to the declared type
changes integers only. So the variable is of its type where the type of the formula can be stored in
it (`Declaration.Fits`), and may be of another one elsewhere (`declareAll_string`). If every
declaration fits, the environment conforms, and formulas that compile fail over numbers at most
(`declareAll_conforms`).
-/

set_option autoImplicit false

namespace ComputedField

/-- What compiles is accepted. -/
theorem accepted_of_compile {D : Declarations} {options : CompileOptions} {expected : Option Ty}
    {text : String} {e : TypedExpr} (h : (compile D options expected text).outcome = .ok e) :
    Accepted D e := by
  obtain ⟨-, ⟨checked, ⟨tree, -, hcheck⟩, hfold⟩, -⟩ := compile_eq_ok.mp h
  split at hfold
  · exact .folded (.checked hcheck) hfold
  · cases hfold
    exact .checked hcheck

theorem Environment.Conforms.hostConforms {σ : Type} {env : Environment σ} (h : env.Conforms) :
    env.HostConforms :=
  ⟨h.values, fun f hf => .inr (h.results f hf)⟩

/-! ## One declaration -/

namespace Declaration

variable {options : CompileOptions} {env env' : ClosedEnvironment} {d : Declaration}

/-- The variable is given null, or the value of a formula whose type can be stored in it. -/
def Fits (options : CompileOptions) (env : ClosedEnvironment) (d : Declaration) : Prop :=
  ∀ text e v, d.formula = some text →
    (compile env.declarations options none text).outcome = .ok e →
    (env.evaluate () options.context e).outcome = .ok v →
    v = .null ∨ Ty.assignable (some d.type) e.type = true

/-- The value is stored in the environment that the evaluation of the formula leaves. -/
theorem addTo_eq_ok (h : d.addTo options env = .ok env') :
    (d.formula = none ∧ env' = env.define d.name d.type .null) ∨
      ∃ text e v, d.formula = some text ∧
        (compile env.declarations options none text).outcome = .ok e ∧
        (env.evaluate () options.context e).outcome = .ok v ∧
        env' = (env.evaluate () options.context e).environment.define d.name d.type v := by
  unfold addTo at h
  split at h
  · next hformula =>
    cases h
    exact .inl ⟨hformula, rfl⟩
  · next text hformula =>
    dsimp only at h
    split at h
    · next v hrun =>
      cases h
      cases hcompile : (compile env.declarations options none text).outcome with
      | error err =>
        simp only [Environment.run, hcompile] at hrun
        cases hrun
      | ok e =>
        obtain ⟨houtcome, henvironment, -⟩ := Environment.run_of_compile () hcompile
        rw [hrun] at houtcome
        refine .inr ⟨text, e, v, hformula, hcompile, ?_, by rw [henvironment]⟩
        exact mapError_eq_ok.mp houtcome.symm
    · cases h

/-- Whether a declaration fits can be told from the type of its formula. -/
theorem fits_of_type {text : String} {t : Option Ty} (hformula : d.formula = some text)
    (htype : (compile env.declarations options none text).outcome.map Expr.type = .ok t)
    (hassignable : Ty.assignable (some d.type) t = true) : d.Fits options env := by
  intro text' e v htext hcompile _
  obtain rfl := Option.some.inj (hformula.symm.trans htext)
  rw [hcompile] at htype
  cases htype
  exact .inr hassignable

theorem variableType?_define (env : ClosedEnvironment) (type : Ty) (value : Value)
    (defined name : String) : (env.define defined type value).declarations.variableType? name =
      if name = defined then some type else env.declarations.variableType? name := by
  simp only [Environment.declarations, Environment.define, Variables.find?_define]
  split <;> rfl

/-- A declaration that fits leaves the environment conforming; the type of its variable is the
declared one, and those of all others stay as they are. -/
theorem conforms_addTo (henv : env.Conforms) (hfits : d.Fits options env)
    (h : d.addTo options env = .ok env') :
    env'.Conforms ∧ ∀ name, env'.declarations.variableType? name =
      if name = d.name then some d.type else env.declarations.variableType? name := by
  rcases addTo_eq_ok h with ⟨-, rfl⟩ | ⟨text, e, v, hformula, hcompile, hvalue, rfl⟩
  · refine ⟨henv.define _ ?_, variableType?_define env d.type .null d.name⟩
    rw [Value.castTo_null]
    exact .null _
  · obtain ⟨houtcome, hnext, hdeclarations⟩ := Environment.evaluate_sound henv.hostConforms
      (accepted_of_compile hcompile) () options.context
    rw [hvalue] at houtcome
    have hcast : (v.castTo (some d.type)).HasType (some d.type) := by
      rcases hfits text e v hformula hcompile hvalue with rfl | hassignable
      · rw [Value.castTo_null]
        exact .null _
      · exact houtcome.castTo (Ty.widens_of_assignable hassignable)
    refine ⟨hnext.conforms.define _ hcast, fun name => ?_⟩
    rw [variableType?_define, hdeclarations]

end Declaration

/-! ## Lists of declarations -/

/-- Each of the declarations fits in the environment that those before it have made of `env`. -/
def AllFit (options : CompileOptions) (env : ClosedEnvironment) : List String → Prop
  | [] => True
  | text :: texts => ∀ d env', Declaration.ofText text = .ok d → d.addTo options env = .ok env' →
      d.Fits options env ∧ AllFit options env' texts

/-- The type of a name: the one that its last declaration gives it, or `before` without one. -/
def declaredType? (before : Option Ty) (name : String) : List String → Option Ty
  | [] => before
  | text :: texts =>
    match Declaration.ofText text with
    | .ok d => declaredType? (if name = d.name then some d.type else before) name texts
    | .error _ => declaredType? before name texts

/-- Induction on the declarations still to be made. -/
theorem conforms_foldlM {options : CompileOptions} {texts : List String}
    {env env' : ClosedEnvironment} (henv : env.Conforms) (hfit : AllFit options env texts)
    (h : texts.foldlM (fun env text => do (← Declaration.ofText text).addTo options env) env =
      .ok env') :
    env'.Conforms ∧ ∀ name, env'.declarations.variableType? name =
      declaredType? (env.declarations.variableType? name) name texts := by
  induction texts generalizing env with
  | nil =>
    cases h
    exact ⟨henv, fun name => rfl⟩
  | cons text texts ih =>
    rw [List.foldlM_cons] at h
    obtain ⟨next, hnext, h⟩ := bind_eq_ok.mp h
    obtain ⟨d, hd, hadd⟩ := bind_eq_ok.mp hnext
    obtain ⟨hfits, hfit⟩ := hfit d next hd hadd
    obtain ⟨hconforms, htypes⟩ := Declaration.conforms_addTo henv hfits hadd
    obtain ⟨hlast, hnames⟩ := ih hconforms hfit h
    refine ⟨hlast, fun name => ?_⟩
    rw [hnames, htypes, declaredType?, hd]

/-- **Declarations that fit build a conforming environment.** Whatever the options, once the
declarations are accepted, every variable has the type that was declared last for its name, it holds
null or a value of this type, and running a formula that compiles fails over numbers at most: never
for a value of the wrong kind. -/
theorem declareAll_conforms {options : CompileOptions} {declarations : List String}
    {env : ClosedEnvironment} (hfit : AllFit options .standard declarations)
    (h : declareAll options declarations = .ok env) :
    (∀ name, (env.vars.find? name).map Variable.type = declaredType? none name declarations) ∧
    (∀ name v, env.vars.find? name = some v → v.value.HasType (some v.type)) ∧
    ∀ expected text e, (compile env.declarations options expected text).outcome = .ok e →
      ∀ err, (env.evaluate () options.context e).outcome = .error err →
        err.fault.isArithmetic = true := by
  obtain ⟨hconforms, htypes⟩ := conforms_foldlM Environment.conforms_standard hfit h
  refine ⟨htypes, hconforms.values, fun expected text e hcompile err herr => ?_⟩
  obtain ⟨houtcome, -⟩ := Environment.evaluate_sound hconforms.hostConforms
    (accepted_of_compile hcompile) () options.context
  rw [herr] at houtcome
  exact houtcome

/-- A decimal that takes the value of an integer declared before it. -/
theorem declareAll_conforms_widening :
    ∃ env, declareAll ⟨.standard, true, false⟩ ["n:integer=2", "d:decimal=n"] = .ok env ∧
      (∀ name, (env.vars.find? name).map Variable.type =
        declaredType? none name ["n:integer=2", "d:decimal=n"]) ∧
      (∀ name v, env.vars.find? name = some v → v.value.HasType (some v.type)) ∧
      ∀ expected text e,
        (compile env.declarations ⟨.standard, true, false⟩ expected text).outcome = .ok e →
        ∀ err, (env.evaluate () .standard e).outcome = .error err →
          err.fault.isArithmetic = true := by
  obtain ⟨env, henv⟩ : ∃ env,
      declareAll ⟨.standard, true, false⟩ ["n:integer=2", "d:decimal=n"] = .ok env := ⟨_, by cbv⟩
  refine ⟨env, henv, declareAll_conforms ?_ henv⟩
  intro d next hd hnext
  have hd' : Declaration.ofText "n:integer=2" = .ok ⟨"n", .integer, some "2"⟩ := by cbv
  obtain rfl := Except.ok.inj (hd'.symm.trans hd)
  refine ⟨Declaration.fits_of_type rfl (t := some .integer) (by cbv) rfl, ?_⟩
  obtain rfl : next = Environment.standard.define "n" .integer (.integer 2) := by
    refine Except.ok.inj (hnext.symm.trans ?_)
    cbv
  intro d last hd hlast
  have hd' : Declaration.ofText "d:decimal=n" = .ok ⟨"d", .decimal, some "n"⟩ := by cbv
  obtain rfl := Except.ok.inj (hd'.symm.trans hd)
  exact ⟨Declaration.fits_of_type rfl (t := some .integer) (by cbv) rfl, trivial⟩

/-- A declaration that does not fit is accepted: its integer is a string, and a formula that is
checked against the declared type fails on its kind. -/
theorem declareAll_string :
    ∃ env e err, declareAll ⟨.standard, true, false⟩ ["x:integer='abc'"] = .ok env ∧
      env.vars.find? "x" = some ⟨.integer, .string "abc"⟩ ∧
      (compile env.declarations ⟨.standard, true, false⟩ none "x + 1").outcome = .ok e ∧
      (env.evaluate () .standard e).outcome = .error err ∧
      err.fault = .kind (.operands (.arithmetic .add) .string .integer) :=
  ⟨_, _, _, by cbv, by cbv, by cbv, by cbv, rfl⟩

end ComputedField
