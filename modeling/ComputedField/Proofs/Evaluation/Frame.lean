import ComputedField.Proofs.Evaluation.Steps

/-!
# What evaluation leaves alone

A plain expression writes no variable, whether it succeeds or fails (`frames_eval`). And whatever
was reported before an evaluation has no influence on it: its own events come behind the earlier
ones (`Run.Logs`).
-/

set_option autoImplicit false

namespace ComputedField

namespace Run

variable {σ α β : Type} {m : Run σ α} {f : α → Run σ β}

/-- Events reported earlier stay in front, and change nothing else. -/
def Logs (m : Run σ α) : Prop :=
  ∀ w events, m.result { w with events := events ++ w.events } =
    ((m.result w).1, { (m.result w).2 with events := events ++ (m.result w).2.events })

/-- What each of two runs keeps of the variables, both keep. -/
theorem view_bind {γ : Type} (view : Variables → γ)
    (h : ∀ w, view (m.result w).2.vars = view w.vars)
    (hf : ∀ a w, view ((f a).result w).2.vars = view w.vars) (w : World σ) :
    view ((m >>= f).result w).2.vars = view w.vars := by
  have hfirst := h w
  rw [result_bind]
  cases hm : m.result w with
  | mk r w' =>
    rw [hm] at hfirst
    cases r with
    | ok a => exact (hf a w').trans hfirst
    | error e => exact hfirst

/-- The run leaves the variables alone. -/
structure Frames (m : Run σ α) : Prop where
  vars : ∀ w, (m.result w).2.vars = w.vars
  logs : Logs m

namespace Logs

theorem bind (h : Logs m) (hf : ∀ a, Logs (f a)) : Logs (m >>= f) := by
  intro w events
  rw [result_bind, result_bind, h w events]
  cases m.result w with
  | mk r w' =>
    cases r with
    | ok a => exact hf a w' events
    | error e => rfl

theorem writeVariable (pos : Position) (name : String) (value : Value) :
    Logs (Run.writeVariable pos name value : Run σ Unit) := by
  intro w events
  rw [result_writeVariable, result_writeVariable]
  dsimp only
  cases w.vars.assign? name value <;> rfl

end Logs

namespace Frames

theorem vars_of_result (h : Frames m) {w w' : World σ} {r : Except EvalError α}
    (hm : m.result w = (r, w')) : w'.vars = w.vars := by
  have hvars := h.vars w
  rwa [hm] at hvars

theorem pure (a : α) : Frames (Pure.pure a : Run σ α) := ⟨fun _ => rfl, fun _ _ => rfl⟩

theorem bind (h : Frames m) (hf : ∀ a, Frames (f a)) : Frames (m >>= f) := by
  refine ⟨?_, h.logs.bind fun a => (hf a).logs⟩
  exact view_bind id h.vars fun a => (hf a).vars

theorem located (pos : Position) (r : Except EvalFault α) :
    Frames (Run.located pos r : Run σ α) := by
  cases r with
  | ok a => exact pure a
  | error fault => exact ⟨fun _ => rfl, fun _ _ => rfl⟩

theorem report (e : Event) : Frames (Run.report e : Run σ Unit) := by
  refine ⟨fun _ => rfl, ?_⟩
  intro w events
  simp [List.append_assoc]

theorem readVariable (pos : Position) (name : String) :
    Frames (Run.readVariable pos name : Run σ Value) := by
  refine ⟨?_, ?_⟩
  · intro w
    rw [result_readVariable]
    cases w.vars.find? name <;> rfl
  · intro w events
    rw [result_readVariable, result_readVariable]
    dsimp only
    cases w.vars.find? name <;> rfl

theorem call (functions : Functions σ) (pos : Position) (name : String)
    (types : List (Option Ty)) (arguments : List Value) :
    Frames (Run.call functions pos name types arguments) := by
  cases hf : functions.resolve? name types with
  | none =>
    unfold Run.call
    rw [hf]
    exact (report _).bind fun _ => ⟨fun _ => rfl, fun _ _ => rfl⟩
  | some f =>
    -- the function gets the host and nothing else of the world
    refine ⟨fun w => by rw [result_call hf], ?_⟩
    intro w events
    rw [result_call hf, result_call hf]
    simp [List.append_assoc]

theorem compositional : Compositional fun α (m : Run σ α) => Frames m :=
  ⟨pure, bind⟩

end Frames

theorem logs_writePlace (pos rootPos : Position) (name : String) (indices : List Value)
    (value : Value) : Logs (writePlace pos rootPos name indices value : Run σ Unit) := by
  unfold writePlace
  split
  · exact .writeVariable rootPos name value
  · refine (Frames.readVariable rootPos name).logs.bind fun slot => ?_
    refine (Frames.located pos _).logs.bind fun r => ?_
    cases r with
    | none => exact (Frames.report _).logs
    | some slot => exact .writeVariable rootPos name slot

end Run

namespace TypedExpr

open Run ComputedField.Expr

variable {σ : Type} (functions : Functions σ) (ctx : MathContext)

/-- Only an assignment writes, and a plain expression is none. -/
theorem ownSteps_of_plain {e : TypedExpr} (h : e.Plain) :
    OwnSteps (fun _ => Frames) functions e where
  located r := .located e.pos r
  read name _ := .readVariable e.pos name
  call name types arguments := .call functions e.pos name types arguments
  write := by
    intro tag root x v place name he
    subst he
    cases h

theorem frames_eval_evalIndices {e : TypedExpr} (h : e.Plain) :
    Frames (eval functions ctx e) ∧ Frames (evalIndices functions ctx e) :=
  holds_eval functions Frames.compositional ctx fun _ hn =>
    ownSteps_of_plain functions (h.part hn)

/-- **A plain expression writes nothing.** -/
theorem frames_eval {e : TypedExpr} (h : e.Plain) : Frames (eval functions ctx e) :=
  (frames_eval_evalIndices functions ctx h).1

theorem frames_evalIndices {e : TypedExpr} (h : e.Plain) :
    Frames (evalIndices functions ctx e) :=
  (frames_eval_evalIndices functions ctx h).2

end TypedExpr

end ComputedField
