import ComputedField.Environment.Library
import ComputedField.Proofs.Evaluation.Frame
import ComputedField.Proofs.Typing.CheckShape
import Mathlib

/-!
# The footprint of an evaluation

An evaluation depends on the variables that the tree names, and changes the values of those that its
assignments write. `Run.Footprint` states both of a run, and is kept by putting runs one after
another; the evaluation of a tree follows node by node (`footprint_eval`).
-/

set_option autoImplicit false

namespace ComputedField

/-- The worlds agree on the variables of `names`, and but for variables they are the same. -/
structure World.AgreeOn {σ : Type} (names : List String) (w w' : World σ) : Prop where
  vars : ∀ x ∈ names, w'.vars.find? x = w.vars.find? x
  host : w'.host = w.host
  events : w'.events = w.events

namespace Run

variable {σ α β : Type} {names written : List String} {m : Run σ α} {f : α → Run σ β}

/-- In worlds that agree on `names` the run ends alike. Everywhere it leaves the variables with
their types, and those outside of `written` with their values, whether it succeeds or fails. -/
structure Footprint (names written : List String) (m : Run σ α) : Prop where
  agrees : ∀ w w', w.AgreeOn names w' →
    (m.result w').1 = (m.result w).1 ∧ (m.result w).2.AgreeOn names (m.result w').2
  types : ∀ w x, ((m.result w).2.vars.find? x).map Variable.type =
    (w.vars.find? x).map Variable.type
  values : ∀ w, ∀ x ∉ written, (m.result w).2.vars.find? x = w.vars.find? x

namespace Footprint

/-- A run that writes no variable has a footprint if it ends alike in worlds that agree. -/
theorem of_frames (h : Frames m) (hagrees : ∀ w w', w.AgreeOn names w' →
      (m.result w').1 = (m.result w).1 ∧ (m.result w).2.AgreeOn names (m.result w').2) :
    Footprint names written m :=
  ⟨hagrees, fun w x => by rw [h.vars], fun w x _ => by rw [h.vars]⟩

theorem pure (a : α) : Footprint names written (Pure.pure a : Run σ α) :=
  .of_frames (.pure a) fun _ _ hw => ⟨rfl, hw⟩

theorem bind (h : Footprint names written m) (hf : ∀ a, Footprint names written (f a)) :
    Footprint names written (m >>= f) := by
  refine ⟨fun w w' hw => ?_, fun w x => ?_, fun w x hx => ?_⟩
  · obtain ⟨houtcome, hagree⟩ := h.agrees w w' hw
    rw [result_bind, result_bind]
    generalize m.result w = left at houtcome hagree ⊢
    generalize m.result w' = right at houtcome hagree ⊢
    obtain ⟨r, v⟩ := left
    obtain ⟨r', v'⟩ := right
    obtain rfl : r' = r := houtcome
    cases r' with
    | ok a => exact (hf a).agrees v v' hagree
    | error e => exact ⟨rfl, hagree⟩
  · exact view_bind (fun vs => (vs.find? x).map Variable.type) (fun w => h.types w x)
      (fun a w => (hf a).types w x) w
  · exact view_bind (fun vs => vs.find? x) (fun w => h.values w x hx)
      (fun a w => (hf a).values w x hx) w

theorem fail (pos : Position) (fault : EvalFault) :
    Footprint names written (Run.fail pos fault : Run σ α) :=
  .of_frames (.located pos (.error fault)) fun _ _ hw => ⟨rfl, hw⟩

theorem located (pos : Position) (r : Except EvalFault α) :
    Footprint names written (Run.located pos r : Run σ α) := by
  cases r with
  | ok a => exact .pure a
  | error fault => exact .fail pos fault

theorem report (e : Event) : Footprint names written (Run.report e : Run σ Unit) := by
  refine .of_frames (.report e) fun w w' hw => ⟨rfl, hw.vars, hw.host, ?_⟩
  show w'.events ++ [e] = w.events ++ [e]
  rw [hw.events]

theorem readVariable (pos : Position) {name : String} (hname : name ∈ names) :
    Footprint names written (Run.readVariable pos name : Run σ Value) := by
  refine .of_frames (.readVariable pos name) fun w w' hw => ?_
  rw [result_readVariable, result_readVariable, hw.vars name hname]
  cases w.vars.find? name with
  | none => exact ⟨rfl, hw⟩
  | some v => exact ⟨rfl, hw⟩

/-- The type of the variable that is written is the declared one in both worlds. -/
theorem writeVariable (pos : Position) {name : String} (value : Value) (hname : name ∈ names)
    (hwritten : name ∈ written) :
    Footprint names written (Run.writeVariable pos name value : Run σ Unit) := by
  refine ⟨fun w w' hw => ?_, fun w x => ?_, fun w x hx => ?_⟩
  · rw [result_writeVariable, result_writeVariable, Variables.assign?, Variables.assign?,
      hw.vars name hname]
    cases w.vars.find? name with
    | none => exact ⟨rfl, hw⟩
    | some v =>
      refine ⟨rfl, fun x hx => ?_, hw.host, hw.events⟩
      simp only [Option.map_some, Variables.find?_define, hw.vars x hx]
  · rw [result_writeVariable]
    cases hassign : w.vars.assign? name value with
    | none => rfl
    | some vs =>
      simp only [Variables.find?_of_assign? hassign]
      split
      · next hx =>
        rw [hx]
        cases w.vars.find? name <;> rfl
      · rfl
  · rw [result_writeVariable]
    cases hassign : w.vars.assign? name value with
    | none => rfl
    | some vs =>
      have hne : x ≠ name := by
        rintro rfl
        exact hx hwritten
      simp only [Variables.find?_of_assign? hassign, if_neg hne]

theorem writePlace (pos rootPos : Position) {name : String} (indices : List Value) (value : Value)
    (hname : name ∈ names) (hwritten : name ∈ written) :
    Footprint names written (Run.writePlace pos rootPos name indices value : Run σ Unit) := by
  unfold Run.writePlace
  split
  · exact .writeVariable rootPos value hname hwritten
  · refine (readVariable rootPos hname).bind fun slot => (located pos _).bind fun slot => ?_
    cases slot with
    | none => exact .report _
    | some slot => exact .writeVariable rootPos slot hname hwritten

/-- A function is given the arguments and the host, and no variable. -/
theorem call (functions : Functions σ) (pos : Position) (name : String)
    (types : List (Option Ty)) (arguments : List Value) :
    Footprint names written (Run.call functions pos name types arguments) := by
  cases hf : functions.resolve? name types with
  | none =>
    unfold Run.call
    rw [hf]
    exact (report _).bind fun _ => fail pos _
  | some f =>
    refine .of_frames (.call ..) fun w w' hw => ?_
    rw [result_call hf, result_call hf, hw.host, hw.events]
    exact ⟨rfl, hw.vars, rfl, rfl⟩

theorem compositional : Compositional fun α (m : Run σ α) => Footprint names written m :=
  ⟨pure, bind⟩

end Footprint

end Run

/-! ## Expressions -/

open Run ComputedField.Expr

namespace TypedExpr

variable {σ : Type} {names written : List String} (functions : Functions σ) (ctx : MathContext)

/-- A node reads the variable that it is, and writes the one at the root of its target. -/
theorem ownSteps_of_namesIn {e : TypedExpr} (h : NamesIn names written e) :
    OwnSteps (fun _ => Footprint names written) functions e where
  located r := .located e.pos r
  read _ hx := .readVariable e.pos (h.variableName hx)
  call name types arguments := .call functions e.pos name types arguments
  write := by
    intro tag root x v place name he hplace hroot indices value
    subst he
    obtain ⟨hname, hwritten⟩ := h.assigned_root hplace hroot
    exact .writePlace _ root.token.pos indices value hname hwritten

/-- **The footprint of a tree.** -/
theorem footprint_eval {e : TypedExpr} (h : NamesIn names written e) :
    Footprint names written (eval functions ctx e) ∧
      Footprint names written (evalIndices functions ctx e) :=
  holds_eval functions Footprint.compositional ctx fun _ hn =>
    ownSteps_of_namesIn functions (h.part hn)

theorem footprint (e : TypedExpr) :
    Footprint e.variableNames e.assignedNames (eval functions ctx e) :=
  (footprint_eval functions ctx ⟨List.Subset.refl _, List.Subset.refl _⟩).1

end TypedExpr

/-! ## Whole evaluations -/

namespace Environment

variable {σ : Type}

/-- `after` has the functions of `before` and the same variables with the same types; the values are
the same but for the variables of `written`. -/
structure ChangesOnly (written : List String) (before after : Environment σ) : Prop where
  functions : after.functions = before.functions
  types : ∀ x, (after.vars.find? x).map Variable.type = (before.vars.find? x).map Variable.type
  values : ∀ x ∉ written, after.vars.find? x = before.vars.find? x

theorem changesOnly_evaluate (env : Environment σ) (host : σ) (ctx : MathContext) (e : TypedExpr) :
    ChangesOnly e.assignedNames env (env.evaluate host ctx e).environment := by
  have hfootprint := TypedExpr.footprint env.functions ctx e
  exact ⟨rfl, hfootprint.types (env.world host), hfootprint.values (env.world host)⟩

/-- **The footprint of an evaluation.** Two environments with the same functions agree on the
variables that a tree names. Then its evaluations in both end alike, with a value or with a failure,
report the same and leave the host and the named variables the same. However it ends, each changes
nothing but the values of variables that an assignment in the tree has at the root of its target. -/
theorem evaluate_footprint (e : TypedExpr) (ctx : MathContext) (host : σ)
    (env env' : Environment σ) (hfunctions : env'.functions = env.functions)
    (hvars : ∀ x ∈ e.variableNames, env'.vars.find? x = env.vars.find? x) :
    (env'.evaluate host ctx e).outcome = (env.evaluate host ctx e).outcome ∧
      (∀ x ∈ e.variableNames, (env'.evaluate host ctx e).environment.vars.find? x =
        (env.evaluate host ctx e).environment.vars.find? x) ∧
      (env'.evaluate host ctx e).host = (env.evaluate host ctx e).host ∧
      (env'.evaluate host ctx e).events = (env.evaluate host ctx e).events ∧
      ChangesOnly e.assignedNames env (env.evaluate host ctx e).environment ∧
      ChangesOnly e.assignedNames env' (env'.evaluate host ctx e).environment := by
  have hworlds : (env.world host).AgreeOn e.variableNames (env'.world host) := ⟨hvars, rfl, rfl⟩
  obtain ⟨houtcome, hagree⟩ := (TypedExpr.footprint env.functions ctx e).agrees _ _ hworlds
  refine ⟨?_, ?_, ?_, ?_, changesOnly_evaluate env host ctx e, changesOnly_evaluate env' host ctx e⟩
  · rw [evaluate_eq, evaluate_eq, hfunctions]
    exact houtcome
  · intro x hx
    rw [evaluate_eq, evaluate_eq, hfunctions]
    exact hagree.vars x hx
  · rw [evaluate_eq, evaluate_eq, hfunctions]
    exact hagree.host
  · rw [evaluate_eq, evaluate_eq, hfunctions]
    dsimp only
    rw [houtcome, hagree.events]

/-- The second statement fails, in an environment with one more variable and in one without. -/
theorem evaluate_footprint_division :
    ∃ (checked : TypedExpr) (env env' : Environment Unit) (err : EvalError),
      checkText? env.declarations "xs[0] = y = 2; xs[1] = 1 / (y - 2)" = some checked ∧
      env' = env.define "z" .string (.string "kept") ∧
      (env.evaluate () .standard checked).outcome = .error err ∧
      (env'.evaluate () .standard checked).outcome = .error err ∧
      (env'.evaluate () .standard checked).environment.vars.find? "y" =
        (env.evaluate () .standard checked).environment.vars.find? "y" ∧
      (env'.evaluate () .standard checked).environment.vars.find? "z" =
        some ⟨.string, .string "kept"⟩ := by
  let env : Environment Unit :=
    (standard.define "xs" (.array .integer 1) (.array [.integer 0, .integer 0])).declare "y"
      .integer
  obtain ⟨checked, hchecked, err, hfail, hnamed, hassigned⟩ : ∃ checked,
      checkText? env.declarations "xs[0] = y = 2; xs[1] = 1 / (y - 2)" = some checked ∧
      ∃ err, (env.evaluate () .standard checked).outcome = .error err ∧
        checked.variableNames = ["xs", "y", "xs", "y"] ∧
        checked.assignedNames = ["xs", "y", "xs"] :=
    ⟨_, by cbv, _, by cbv, by cbv, by cbv⟩
  have hvars : ∀ x ∈ checked.variableNames,
      (env.define "z" .string (.string "kept")).vars.find? x = env.vars.find? x := by
    intro x hx
    rw [hnamed] at hx
    have hne : x ≠ "z" := by
      rintro rfl
      exact absurd hx (by decide)
    simp only [define, Variables.find?_define, if_neg hne]
  obtain ⟨houtcome, hnames, -, -, -, hchanges⟩ := evaluate_footprint checked .standard () env
    (env.define "z" .string (.string "kept")) rfl hvars
  refine ⟨checked, env, _, err, hchecked, rfl, hfail, houtcome.trans hfail, hnames "y" ?_, ?_⟩
  · rw [hnamed]
    decide
  · rw [hchanges.values "z" (by rw [hassigned]; decide)]
    simp [define, Variable.holding, Value.castTo]

end Environment

end ComputedField
