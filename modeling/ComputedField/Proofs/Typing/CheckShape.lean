import ComputedField.Proofs.Expr.ReadSound
import ComputedField.Proofs.Expr.Written
import ComputedField.Proofs.Typing.WellTyped

/-!
# Checking keeps shapes

The checker notes types on the nodes and leaves the form of the tree alone, so that a checked text
is a program as it was read (`program_of_check`), and can be written (`formula_of_check`).
-/

set_option autoImplicit false

namespace ComputedField

namespace RawExpr

variable {D : Declarations}

theorem plain_of_check {e : RawExpr} {t : TypedExpr} (hp : e.Plain) (h : check D e = .ok t) :
    t.Plain := by
  induction hp generalizing t with
  | literal tag v =>
    obtain rfl := check_literal_eq_ok h
    exact .literal _ _
  | var tag name =>
    obtain ⟨u, -, rfl⟩ := check_var_eq_ok h
    exact .var _ _
  | unary _ ih =>
    obtain ⟨x, _, hx, -, rfl⟩ := check_unary_eq_ok h
    exact .unary (ih hx)
  | binary _ _ ihl ihr =>
    obtain ⟨l, r, _, _, hl, hr, -, rfl⟩ := check_binary_eq_ok h
    exact .binary (ihl hl) (ihr hr)
  | conditional _ _ _ ihc ihx ihy =>
    obtain ⟨c, x, y, _, hc, hx, hy, -, -, rfl⟩ := check_conditional_eq_ok h
    exact .conditional (ihc hc) (ihx hx) (ihy hy)
  | element _ _ iha ihi =>
    obtain ⟨a, i, _, ha, hi, -, rfl⟩ := check_element_eq_ok h
    exact .element (iha ha) (ihi hi)
  | call _ ih =>
    obtain ⟨as, _, has, -, rfl⟩ := check_call_eq_ok h
    exact .call (forall_of_checkAll has ih)

theorem statement_of_check {e : RawExpr} {t : TypedExpr} (hs : e.Statement)
    (h : check D e = .ok t) : t.Statement := by
  induction hs generalizing t with
  | plain hp => exact .plain (plain_of_check hp h)
  | assignment hp _ ih =>
    obtain ⟨x, v, _, hx, hv, -, -, rfl⟩ := check_assignment_eq_ok h
    exact .assignment (plain_of_check hp hx) (ih hv)

theorem program_of_check {e : RawExpr} {t : TypedExpr} (hp : e.Program) (h : check D e = .ok t) :
    t.Program := by
  cases hp with
  | statement hs => exact .statement (statement_of_check hs h)
  | sequence hss =>
    obtain ⟨ss, hcheck, rfl⟩ := check_sequence_eq_ok h
    exact .sequence (forall_of_checkAll hcheck fun s hs _ => statement_of_check (hss s hs))

theorem named_of_check {e : RawExpr} {t : TypedExpr} (hn : e.Named) (h : check D e = .ok t) :
    t.Named := by
  induction e using Expr.induct generalizing t with
  | literal tag v =>
    obtain rfl := check_literal_eq_ok h
    exact hn
  | var tag name =>
    obtain ⟨u, -, rfl⟩ := check_var_eq_ok h
    exact hn
  | unary tag op x ih =>
    obtain ⟨x', _, hx, -, rfl⟩ := check_unary_eq_ok h
    exact Expr.named_unary.mpr (ih (Expr.named_unary.mp hn) hx)
  | binary tag op l r ihl ihr =>
    obtain ⟨l', r', _, _, hl, hr, -, rfl⟩ := check_binary_eq_ok h
    obtain ⟨hln, hrn⟩ := Expr.named_binary.mp hn
    exact Expr.named_binary.mpr ⟨ihl hln hl, ihr hrn hr⟩
  | assignment tag x v ihx ihv =>
    obtain ⟨x', v', _, hx, hv, -, -, rfl⟩ := check_assignment_eq_ok h
    obtain ⟨hxn, hvn⟩ := Expr.named_assignment.mp hn
    exact Expr.named_assignment.mpr ⟨ihx hxn hx, ihv hvn hv⟩
  | conditional tag c x y ihc ihx ihy =>
    obtain ⟨c', x', y', _, hc, hx, hy, -, -, rfl⟩ := check_conditional_eq_ok h
    obtain ⟨hcn, hxn, hyn⟩ := Expr.named_conditional.mp hn
    exact Expr.named_conditional.mpr ⟨ihc hcn hc, ihx hxn hx, ihy hyn hy⟩
  | element tag a i iha ihi =>
    obtain ⟨a', i', _, ha, hi, -, rfl⟩ := check_element_eq_ok h
    obtain ⟨han, hin⟩ := Expr.named_element.mp hn
    exact Expr.named_element.mpr ⟨iha han ha, ihi hin hi⟩
  | call tag f as ih =>
    obtain ⟨as', _, has, -, rfl⟩ := check_call_eq_ok h
    obtain ⟨hf, hasn⟩ := Expr.named_call.mp hn
    exact Expr.named_call.mpr ⟨hf, forall_of_checkAll has fun a ha _ => ih a ha (hasn a ha)⟩
  | sequence tag ss ih =>
    obtain ⟨ss', hss, rfl⟩ := check_sequence_eq_ok h
    have hssn := Expr.named_sequence.mp hn
    exact Expr.named_sequence.mpr (forall_of_checkAll hss fun s hs _ => ih s hs (hssn s hs))

theorem formula_of_check {e : RawExpr} {t : TypedExpr} (hf : e.Formula) (h : check D e = .ok t) :
    t.Formula := by
  refine ⟨program_of_check hf.program h, named_of_check hf.named h, ?_⟩
  rintro tag ss rfl
  cases hf.program with
  | statement hs => cases (statement_of_check hs h).plain_of_isAssignment rfl
  | sequence =>
    obtain ⟨ss', hss, heq⟩ := check_sequence_eq_ok h
    cases heq
    rw [← (forall₂_of_checkAll hss).length_eq]
    exact hf.several rfl

end RawExpr

/-! ## Checked texts -/

/-- The text is read as an expression that the checker accepts, and `checked` is what it returns. -/
def Checks (D : Declarations) (text : String) (checked : TypedExpr) : Prop :=
  ∃ tree, RawExpr.ofText text = .ok tree ∧ RawExpr.check D tree = .ok checked

/-- Reads and checks a text. -/
def checkText? (D : Declarations) (text : String) : Option TypedExpr :=
  (RawExpr.ofText text).toOption.bind fun tree => (RawExpr.check D tree).toOption

theorem checks_iff {D : Declarations} {text : String} {checked : TypedExpr} :
    Checks D text checked ↔ checkText? D text = some checked := by
  unfold Checks checkText?
  cases RawExpr.ofText text with
  | error e => simp [Except.toOption]
  | ok tree =>
    cases h : RawExpr.check D tree <;> simp [Except.toOption, h]

theorem Checks.wellTyped {D : Declarations} {text : String} {checked : TypedExpr}
    (h : Checks D text checked) : TypedExpr.WellTyped D checked := by
  obtain ⟨tree, -, hcheck⟩ := h
  exact RawExpr.wellTyped_of_check hcheck

theorem Checks.program {D : Declarations} {text : String} {checked : TypedExpr}
    (h : Checks D text checked) : checked.Program := by
  obtain ⟨tree, hread, hcheck⟩ := h
  exact RawExpr.program_of_check (RawExpr.program_of_ofText hread) hcheck

end ComputedField
