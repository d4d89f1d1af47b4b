import ComputedField.Expr.Basic
import Mathlib.Data.List.Forall2

/-!
# The shapes of expressions

Induction over expressions, and where assignments and sequences stand in them. In a `Program` they
stand where the grammar has them: a sequence at the root, an assignment as a statement or as the
value of another assignment. Operands, indices, arguments and targets are `Plain`.
-/

set_option autoImplicit false

namespace ComputedField

/-- What stands on the right of a row of related members is related to one on the left. -/
theorem exists_left_of_forall₂ {α β : Type} {R : α → β → Prop} {as : List α} {bs : List β}
    (h : List.Forall₂ R as bs) : ∀ b ∈ bs, ∃ a ∈ as, R a b := by
  induction h with
  | nil => intro b hb; cases hb
  | @cons a b as bs hab _ ih =>
    intro c hc
    rcases List.mem_cons.mp hc with rfl | hc
    · exact ⟨a, List.mem_cons_self, hab⟩
    · obtain ⟨x, hx, hxc⟩ := ih c hc
      exact ⟨x, List.mem_cons_of_mem a hx, hxc⟩

namespace Expr

variable {α : Type}

/-- Induction over expressions: the members of a list are as good as direct parts. -/
@[elab_as_elim]
theorem induct {motive : Expr α → Prop}
    (literal : ∀ tag v, motive (.literal tag v))
    (var : ∀ tag name, motive (.var tag name))
    (unary : ∀ tag op x, motive x → motive (.unary tag op x))
    (binary : ∀ tag op l r, motive l → motive r → motive (.binary tag op l r))
    (assignment : ∀ tag x v, motive x → motive v → motive (.assignment tag x v))
    (conditional : ∀ tag c x y, motive c → motive x → motive y →
      motive (.conditional tag c x y))
    (element : ∀ tag a i, motive a → motive i → motive (.element tag a i))
    (call : ∀ tag f as, (∀ a ∈ as, motive a) → motive (.call tag f as))
    (sequence : ∀ tag ss, (∀ s ∈ ss, motive s) → motive (.sequence tag ss)) :
    ∀ e, motive e := by
  intro e
  refine Expr.rec (motive_1 := motive) (motive_2 := fun es => ∀ e ∈ es, motive e) literal var unary
    binary assignment conditional element call sequence ?_ ?_ e
  · intro e he
    cases he
  · intro e es he hes x hx
    rcases List.mem_cons.mp hx with rfl | hx
    · exact he
    · exact hes x hx

/-- Without assignments and sequences. -/
inductive Plain : Expr α → Prop where
  | literal (tag : Tag α) (v : Literal) : Plain (.literal tag v)
  | var (tag : Tag α) (name : String) : Plain (.var tag name)
  | unary {tag : Tag α} {op : UnaryOp} {x : Expr α} : Plain x → Plain (.unary tag op x)
  | binary {tag : Tag α} {op : BinaryOp} {l r : Expr α} :
      Plain l → Plain r → Plain (.binary tag op l r)
  | conditional {tag : Tag α} {c x y : Expr α} :
      Plain c → Plain x → Plain y → Plain (.conditional tag c x y)
  | element {tag : Tag α} {a i : Expr α} : Plain a → Plain i → Plain (.element tag a i)
  | call {tag : Tag α} {f : String} {as : List (Expr α)} :
      (∀ a ∈ as, Plain a) → Plain (.call tag f as)

/-- An expression that may be assigned to a chain of places. -/
inductive Statement : Expr α → Prop where
  | plain {e : Expr α} : Plain e → Statement e
  | assignment {tag : Tag α} {x v : Expr α} :
      Plain x → Statement v → Statement (.assignment tag x v)

/-- One statement, or a sequence of them. -/
inductive Program : Expr α → Prop where
  | statement {e : Expr α} : Statement e → Program e
  | sequence {tag : Tag α} {ss : List (Expr α)} :
      (∀ s ∈ ss, Statement s) → Program (.sequence tag ss)

theorem Plain.isAssignment {e : Expr α} (h : e.Plain) : e.isAssignment = false := by
  cases h <;> rfl

theorem Statement.plain_of_isAssignment {e : Expr α} (h : e.Statement)
    (ha : e.isAssignment = false) : e.Plain := by
  cases h with
  | plain h => exact h
  | assignment => cases ha

theorem Plain.withTag {e : Expr α} (h : e.Plain) (tag : Tag α) : (e.withTag tag).Plain := by
  cases h with
  | literal _ v => exact .literal tag v
  | var _ name => exact .var tag name
  | unary hx => exact .unary hx
  | binary hl hr => exact .binary hl hr
  | conditional hc hx hy => exact .conditional hc hx hy
  | element ha hi => exact .element ha hi
  | call has => exact .call has

/-- The statements of a program. -/
def statements : Expr α → List (Expr α)
  | .sequence _ ss => ss
  | e => [e]

theorem Statement.statements_eq {e : Expr α} (h : e.Statement) : e.statements = [e] := by
  cases h with
  | plain h => cases h <;> rfl
  | assignment => rfl

/-! ## Places -/

theorem target?_of_isPlace {e : Expr α} (h : e.isPlace = true) : e.target? = some e := by
  cases e with
  | var => rfl
  | element tag a i => simpa [target?, isPlace] using h
  | _ => cases h

theorem target?_unary {tag : Tag α} {op : UnaryOp} {x : Expr α} (hop : op ≠ .group) :
    (unary tag op x).target? = none := by
  cases op with
  | group => exact absurd rfl hop
  | positive | negative | not => rfl

theorem target?_element {tag : Tag α} {a i place : Expr α} :
    (element tag a i).target? = some place ↔ a.isPlace = true ∧ element tag a i = place := by
  simp [target?]

/-- The array of an element that is written is a place itself. -/
theorem target?_array {tag : Tag α} {a i place : Expr α}
    (h : (element tag a i).target? = some place) : a.target? = some a :=
  target?_of_isPlace (target?_element.mp h).1

end Expr

end ComputedField
