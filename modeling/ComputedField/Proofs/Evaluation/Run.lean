import ComputedField.Evaluation
import ComputedField.Proofs.Outcome

/-!
# How runs end

`Run.result` is the view of a run: how it ends in a world, and the world that it leaves. Two runs
are the same where their results are. `Run.Ends` states what holds of a result, of a value and of a
failure apart, and `Run.Ends.bind` puts such statements one after another.
-/

set_option autoImplicit false

namespace ComputedField

namespace Run

variable {σ α β : Type}

/-- How the run ends in the world `w`, and the world it leaves. -/
def result (m : Run σ α) (w : World σ) : Except EvalError α × World σ := StateT.run (ExceptT.run m) w

/-! ## Results of the steps -/

variable {m m' : Run σ α} {f f' : α → Run σ β} {w : World σ}

@[simp] theorem result_pure (a : α) (w : World σ) : (pure a : Run σ α).result w = (.ok a, w) := rfl

theorem result_bind (m : Run σ α) (f : α → Run σ β) (w : World σ) :
    (m >>= f).result w =
      match m.result w with
      | (.ok a, w') => (f a).result w'
      | (.error e, w') => (.error e, w') := by
  show StateT.run (ExceptT.run (m >>= f)) w = _
  simp only [ExceptT.run_bind, StateT.run_bind]
  unfold result
  rcases StateT.run (ExceptT.run m) w with ⟨r, w'⟩
  cases r <;> rfl

theorem result_bind_of_ok {a : α} {w' : World σ} (h : m.result w = (.ok a, w')) :
    (m >>= f).result w = (f a).result w' := by
  rw [result_bind, h]

theorem result_bind_of_error {e : EvalError} {w' : World σ} (h : m.result w = (.error e, w')) :
    (m >>= f).result w = (.error e, w') := by
  rw [result_bind, h]

@[simp] theorem result_located_ok (pos : Position) (a : α) (w : World σ) :
    (located pos (.ok a) : Run σ α).result w = (.ok a, w) := rfl

@[simp] theorem result_located_error (pos : Position) (fault : EvalFault) (w : World σ) :
    (located pos (.error fault) : Run σ α).result w = (.error ⟨pos, fault⟩, w) := rfl

@[simp] theorem result_report (e : Event) (w : World σ) :
    (report e : Run σ Unit).result w = (.ok (), { w with events := w.events ++ [e] }) := rfl

theorem result_get_bind (f : World σ → Run σ β) (w : World σ) :
    ((get : Run σ (World σ)) >>= f).result w = (f w).result w := rfl

theorem result_readVariable (pos : Position) (name : String) (w : World σ) :
    (readVariable pos name : Run σ Value).result w =
      match w.vars.find? name with
      | some v => (.ok v.value, w)
      | none => (.error ⟨pos, .unknownVariable name⟩, w) := by
  rw [readVariable, result_get_bind]
  cases w.vars.find? name <;> rfl

theorem result_readVariable_of_find? (pos : Position) {name : String} {w : World σ} {x : Variable}
    (hx : w.vars.find? name = some x) :
    (readVariable pos name : Run σ Value).result w = (.ok x.value, w) := by
  rw [result_readVariable, hx]

theorem result_writeVariable (pos : Position) (name : String) (value : Value) (w : World σ) :
    (writeVariable pos name value : Run σ Unit).result w =
      match w.vars.assign? name value with
      | some vs => (.ok (), { w with vars := vs })
      | none => (.error ⟨pos, .unknownVariable name⟩, w) := by
  rw [writeVariable, result_get_bind]
  cases w.vars.assign? name value <;> rfl

/-- A write to a declared variable, once it is known what becomes of its value. -/
theorem result_writePlace (pos rootPos : Position) {name : String} {indices : List Value}
    {value : Value} {w : World σ} {x : Variable} (hx : w.vars.find? name = some x)
    {r : Option Value} (hr : x.value.setElement indices value = .ok r) :
    (writePlace pos rootPos name indices value : Run σ Unit).result w =
      r.elim (.ok (), { w with events := w.events ++ [.noElement pos] })
        fun slot => (writeVariable rootPos name slot).result w := by
  cases indices with
  | nil =>
    cases hr
    rfl
  | cons index rest =>
    rw [writePlace, if_neg (by simp), result_bind_of_ok (result_readVariable_of_find? rootPos hx),
      hr, result_bind_of_ok (result_located_ok ..)]
    cases r <;> rfl

theorem result_call {functions : Functions σ} {name : String} {types : List (Option Ty)}
    {f : Function σ} (h : functions.resolve? name types = some f) (pos : Position)
    (arguments : List Value) (w : World σ) :
    (call functions pos name types arguments).result w =
      (.ok (f.invoke arguments w.host).1,
        ⟨w.vars, (f.invoke arguments w.host).2, w.events ++ [.called name arguments]⟩) := by
  simp only [call, h]
  rfl

/-! ## Runs with the same results -/

/-- Runs that begin alike and go on alike have the same result. -/
theorem result_bind_congr (h : m'.result w = m.result w)
    (hf : ∀ a w', m.result w = (.ok a, w') → (f' a).result w' = (f a).result w') :
    (m' >>= f').result w = (m >>= f).result w := by
  rw [result_bind, result_bind, h]
  cases hm : m.result w with
  | mk r w' =>
    cases r with
    | ok a => exact hf a w' hm
    | error e => rfl

/-- A run that only gives back the value of the first may be left out. -/
theorem result_bind_eq_self {f : α → Run σ α}
    (h : ∀ a w', m.result w = (.ok a, w') → (f a).result w' = (.ok a, w')) :
    (m >>= f).result w = m.result w := by
  rw [result_bind]
  cases hm : m.result w with
  | mk r w' =>
    cases r with
    | ok a => exact h a w' hm
    | error e => rfl

/-! ## What holds of a result -/

/-- In the world `w` the run ends with a value and a world of which `Q` holds, or with a failure
and a world of which `E` holds. -/
def Ends (m : Run σ α) (w : World σ) (Q : α → World σ → Prop) (E : EvalError → World σ → Prop) :
    Prop :=
  match m.result w with
  | (.ok a, w') => Q a w'
  | (.error e, w') => E e w'

variable {Q Q' : α → World σ → Prop} {R : β → World σ → Prop} {E E' : EvalError → World σ → Prop}

theorem Ends.of_ok {a : α} {w' : World σ} (h : m.result w = (.ok a, w')) (hq : Q a w') :
    m.Ends w Q E := by
  rw [Ends, h]; exact hq

theorem Ends.of_error {e : EvalError} {w' : World σ} (h : m.result w = (.error e, w'))
    (he : E e w') : m.Ends w Q E := by
  rw [Ends, h]; exact he

theorem Ends.ok {a : α} {w' : World σ} (h : m.Ends w Q E) (hm : m.result w = (.ok a, w')) :
    Q a w' := by
  rw [Ends, hm] at h; exact h

theorem Ends.error {e : EvalError} {w' : World σ} (h : m.Ends w Q E)
    (hm : m.result w = (.error e, w')) : E e w' := by
  rw [Ends, hm] at h; exact h

theorem Ends.pure {a : α} (h : Q a w) : (Pure.pure a : Run σ α).Ends w Q E := h

theorem Ends.imp (h : m.Ends w Q E) (hq : ∀ a w', Q a w' → Q' a w')
    (he : ∀ e w', E e w' → E' e w') : m.Ends w Q' E' := by
  unfold Ends at h ⊢
  split at h
  · exact hq _ _ h
  · exact he _ _ h

/-- A failure of the first run is one of both; after a value the second goes on where the first
ended. -/
theorem Ends.bind (h : m.Ends w Q E) (hf : ∀ a w', Q a w' → (f a).Ends w' R E) :
    (m >>= f).Ends w R E := by
  cases hm : m.result w with
  | mk r w' =>
    cases r with
    | ok a =>
      have hq := hf a w' (h.ok hm)
      rw [Ends, result_bind_of_ok hm]
      exact hq
    | error e => exact .of_error (result_bind_of_error hm) (h.error hm)

/-- What a failing sequence of runs failed at. -/
theorem result_bind_eq_error {e : EvalError} {w₂ : World σ} :
    (m >>= f).result w = (.error e, w₂) ↔ m.result w = (.error e, w₂) ∨
      ∃ a w₁, m.result w = (.ok a, w₁) ∧ (f a).result w₁ = (.error e, w₂) := by
  rw [result_bind]
  rcases m.result w with ⟨r, w₁⟩
  cases r with
  | ok a =>
    constructor
    · intro h
      exact .inr ⟨a, w₁, rfl, h⟩
    · rintro (h | ⟨_, _, h, hf⟩)
      · cases h
      · cases h; exact hf
  | error e' => simp

/-- A sequence of runs that succeeds, step by step. -/
theorem result_bind_eq_ok {b : β} {w₂ : World σ} :
    (m >>= f).result w = (.ok b, w₂) ↔
      ∃ a w₁, m.result w = (.ok a, w₁) ∧ (f a).result w₁ = (.ok b, w₂) := by
  rw [result_bind]
  rcases m.result w with ⟨r, w₁⟩
  cases r with
  | ok a =>
    constructor
    · intro h
      exact ⟨a, w₁, rfl, h⟩
    · rintro ⟨_, _, h, hf⟩
      cases h
      exact hf
  | error e => simp

end Run

end ComputedField
