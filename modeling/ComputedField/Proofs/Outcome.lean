import ComputedField.Position

/-!
# Steps that may fail

How a sequence of steps that may fail ends: `ok_bind` and `error_bind` run one, `bind_eq_ok` and
`bind_eq_error` tell from its end how the steps ended. Checking, reading and folding are taken apart
with these.
-/

set_option autoImplicit false

namespace ComputedField

variable {ε α β : Type}

@[simp] theorem ok_bind (a : α) (f : α → Except ε β) : (Except.ok a >>= f) = f a := rfl

@[simp] theorem error_bind (e : ε) (f : α → Except ε β) :
    (Except.error e >>= f) = Except.error e := rfl

@[simp] theorem pure_eq_ok (a : α) : (pure a : Except ε α) = Except.ok a := rfl

@[simp] theorem throw_eq_error (e : ε) : (throw e : Except ε α) = Except.error e := rfl

theorem bind_eq_ok {x : Except ε α} {f : α → Except ε β} {b : β} :
    (x >>= f) = .ok b ↔ ∃ a, x = .ok a ∧ f a = .ok b := by
  cases x <;> simp

theorem bind_eq_error {x : Except ε α} {f : α → Except ε β} {e : ε} :
    (x >>= f) = .error e ↔ x = .error e ∨ ∃ a, x = .ok a ∧ f a = .error e := by
  cases x <;> simp

theorem mapError_eq_ok {δ : Type} {x : Except ε α} {f : ε → δ} {a : α} :
    x.mapError f = .ok a ↔ x = .ok a := by
  cases x with
  | ok b =>
    show Except.ok b = Except.ok a ↔ Except.ok b = Except.ok a
    simp
  | error e =>
    constructor
    · intro h
      cases h
    · intro h
      cases h

theorem mapError_eq_error {δ : Type} {x : Except ε α} {f : ε → δ} {d : δ} :
    x.mapError f = .error d ↔ ∃ e, x = .error e ∧ f e = d := by
  cases x with
  | ok a =>
    show Except.ok a = Except.error d ↔ _
    simp
  | error e =>
    show Except.error (f e) = Except.error d ↔ _
    simp

theorem Position.report_eq_ok {pos : Position} {r : Except ε α} {a : α} :
    pos.report r = .ok a ↔ r = .ok a :=
  mapError_eq_ok

/-! ## What holds of a result -/

/-- If the steps succeed, their result satisfies `P`. -/
def Gives (x : Except ε α) (P : α → Prop) : Prop := ∀ a, x = .ok a → P a

variable {x : Except ε α} {f : α → Except ε β} {P P' : α → Prop} {Q : β → Prop}

theorem gives_self (x : Except ε α) : Gives x (x = .ok ·) := fun _ h => h

theorem Gives.ok {a : α} (h : P a) : Gives (.ok a : Except ε α) P := by
  intro b hb
  cases hb
  exact h

theorem Gives.pure {a : α} (h : P a) : Gives (pure a : Except ε α) P := .ok h

theorem Gives.throw (e : ε) : Gives (throw e : Except ε α) P := by
  intro a ha
  cases ha

theorem Gives.bind (h : Gives x P) (hf : ∀ a, P a → Gives (f a) Q) : Gives (x >>= f) Q := by
  intro b hb
  obtain ⟨a, ha, hb⟩ := bind_eq_ok.mp hb
  exact hf a (h a ha) b hb

/-! ## How steps end -/

/-- The steps succeed with a result of which `P` holds, or fail with an error of which `E` holds. -/
def Settles (x : Except ε α) (P : α → Prop) (E : ε → Prop) : Prop :=
  match x with
  | .ok a => P a
  | .error e => E e

namespace Settles

variable {E : ε → Prop}

theorem bind (h : Settles x P E) (hf : ∀ a, P a → Settles (f a) Q E) :
    Settles (x >>= f) Q E := by
  cases x with
  | ok a => exact hf a h
  | error e => exact h

theorem mapError {δ : Type} {D : δ → Prop} {g : ε → δ} (h : Settles x P E)
    (hg : ∀ e, E e → D (g e)) : Settles (x.mapError g) P D := by
  cases x with
  | ok a => exact h
  | error e => exact hg e h

theorem of_ok {a : α} (h : Settles x P E) (hx : x = .ok a) : P a := by
  rwa [hx] at h

theorem of_error {e : ε} (h : Settles x P E) (hx : x = .error e) : E e := by
  rwa [hx] at h

end Settles

/-- The steps succeed with a result of which `P` holds, or fail at a place of `S`. -/
abbrev Placed (S : Position → Prop) (x : Except (Located ε) α) (P : α → Prop) : Prop :=
  Settles x P fun e => S e.pos

theorem placed_report {S : Position → Prop} {pos : Position} {r : Except ε α} (h : S pos) :
    Placed S (pos.report r) fun _ => True := by
  cases r with
  | ok a => exact trivial
  | error fault => exact h

end ComputedField
