import ComputedField.Proofs.Evaluation.Steps
import ComputedField.Proofs.Expr.Places

/-!
# Where evaluation fails

An evaluation fails at the place of a node of its tree, whatever the world it runs in
(`TypedExpr.failsIn_eval`): every failure of a node is reported at its own place, or at that of the
variable that an assignment writes.
-/

set_option autoImplicit false

namespace ComputedField

namespace Run

variable {σ α β : Type} {S : Position → Prop} {m : Run σ α} {f : α → Run σ β}

/-- In every world the run succeeds, or fails at a place of `S`. -/
def FailsIn (S : Position → Prop) (m : Run σ α) : Prop :=
  ∀ w w' e, m.result w = (.error e, w') → S e.pos

namespace FailsIn

theorem pure (a : α) : FailsIn S (Pure.pure a : Run σ α) := by
  intro w w' e h
  cases h

theorem bind (h : FailsIn S m) (hf : ∀ a, FailsIn S (f a)) : FailsIn S (m >>= f) := by
  intro w w' e he
  rcases result_bind_eq_error.mp he with he | ⟨a, w₁, -, he⟩
  · exact h w w' e he
  · exact hf a w₁ w' e he

theorem fail {pos : Position} (fault : EvalFault) (h : S pos) :
    FailsIn S (Run.fail pos fault : Run σ α) := by
  intro w w' e he
  cases he
  exact h

theorem located {pos : Position} (r : Except EvalFault α) (h : S pos) :
    FailsIn S (Run.located pos r : Run σ α) := by
  cases r with
  | ok a => exact pure a
  | error fault => exact fail fault h

theorem report (event : Event) : FailsIn S (Run.report event : Run σ Unit) := by
  intro w w' e he
  cases he

theorem readVariable {pos : Position} (name : String) (h : S pos) :
    FailsIn S (Run.readVariable pos name : Run σ Value) := by
  intro w w' e he
  rw [result_readVariable] at he
  cases hv : w.vars.find? name with
  | none =>
    rw [hv] at he
    cases he
    exact h
  | some v =>
    rw [hv] at he
    cases he

theorem writeVariable {pos : Position} (name : String) (value : Value) (h : S pos) :
    FailsIn S (Run.writeVariable pos name value : Run σ Unit) := by
  intro w w' e he
  rw [result_writeVariable] at he
  cases hvs : w.vars.assign? name value with
  | none =>
    rw [hvs] at he
    cases he
    exact h
  | some vs =>
    rw [hvs] at he
    cases he

/-- An assignment reports an unknown variable where the variable stands, and all else where the
assignment does. -/
theorem writePlace {pos rootPos : Position} (name : String) (indices : List Value) (value : Value)
    (h : S pos) (hroot : S rootPos) :
    FailsIn S (Run.writePlace pos rootPos name indices value : Run σ Unit) := by
  unfold Run.writePlace
  split
  · exact writeVariable name value hroot
  · refine (readVariable name hroot).bind fun slot => (located _ h).bind fun slot => ?_
    cases slot with
    | none => exact report _
    | some slot => exact writeVariable name slot hroot

/-- A function that is found does not fail. -/
theorem call (functions : Functions σ) {pos : Position} (name : String) (types : List (Option Ty))
    (arguments : List Value) (h : S pos) :
    FailsIn S (Run.call functions pos name types arguments) := by
  cases hf : functions.resolve? name types with
  | none =>
    unfold Run.call
    rw [hf]
    exact (report _).bind fun _ => fail _ h
  | some f =>
    intro w w' e he
    rw [result_call hf] at he
    cases he

theorem compositional : Compositional fun α (m : Run σ α) => FailsIn S m :=
  ⟨pure, bind⟩

end FailsIn

end Run

/-! ## Expressions -/

open Run ComputedField.Expr

namespace TypedExpr

variable {σ : Type} {S : Position → Prop} (functions : Functions σ) (ctx : MathContext)

/-- A node that is placed fails at its place, or at that of the variable that it writes. -/
theorem ownSteps_of_placedIn {e : TypedExpr} (h : e.PlacedIn S) :
    OwnSteps (fun _ => FailsIn S) functions e where
  located r := .located r h.here
  read name _ := .readVariable name h.here
  call name types arguments := .call functions name types arguments h.here
  write := by
    intro tag root x v place name he hplace hroot indices value
    subst he
    have hx : x.PlacedIn S := (placedIn_assignment.mp h).2.1
    exact .writePlace name indices value h.here ((hx.target hplace).root hroot)

/-- **A tree is evaluated in its places.** -/
theorem failsIn_eval {e : TypedExpr} (h : e.PlacedIn S) : FailsIn S (eval functions ctx e) :=
  (holds_eval functions FailsIn.compositional ctx fun _ hn =>
    ownSteps_of_placedIn functions (h.part hn)).1

end TypedExpr

end ComputedField
