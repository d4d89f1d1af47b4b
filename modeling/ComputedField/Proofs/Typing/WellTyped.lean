import ComputedField.Proofs.Typing.Nodes
import ComputedField.Proofs.Value.Operators

/-!
# Well-typed expressions

`WellTyped D e` says of a noted expression that every note is one that the typing rules allow. It
is weaker than being an answer of the checker in one place: where the rules know no type, because
only null comes out, a node may be noted with any type (`Ty.NotedAs`). Folding needs that freedom.
What the checker returns is well-typed (`wellTyped_of_check`).
-/

set_option autoImplicit false

namespace ComputedField

namespace TypedExpr

/-- Every note of the expression is allowed by the typing rules. -/
inductive WellTyped (D : Declarations) : TypedExpr → Prop where
  | literal {tag : Tag (Option Ty)} {v : Literal} : v.toValue.HasType tag.note →
      WellTyped D (.literal tag v)
  | var {tag : Tag (Option Ty)} {name : String} {t : Ty} : D.variableType? name = some t →
      tag.note = some t → WellTyped D (.var tag name)
  /-- Parentheses have the type of what they hold, so that they can be dropped. -/
  | group {tag : Tag (Option Ty)} {x : TypedExpr} : WellTyped D x → tag.note = x.type →
      WellTyped D (.unary tag .group x)
  | unary {tag : Tag (Option Ty)} {op : UnaryOp} {x : TypedExpr} {t : Option Ty} : op ≠ .group →
      WellTyped D x → op.resultType x.type = .ok t → Ty.NotedAs t tag.note →
      WellTyped D (.unary tag op x)
  | binary {tag : Tag (Option Ty)} {op : BinaryOp} {l r : TypedExpr} {t : Option Ty} :
      WellTyped D l → WellTyped D r → op.resultType l.type r.type = .ok (op, t) →
      Ty.NotedAs t tag.note → WellTyped D (.binary tag op l r)
  | assignment {tag : Tag (Option Ty)} {x v place : TypedExpr} : WellTyped D x → WellTyped D v →
      x.target? = some place → Ty.assignable place.type v.type = true → tag.note = place.type →
      WellTyped D (.assignment tag x v)
  | conditional {tag : Tag (Option Ty)} {c x y : TypedExpr} {t : Option Ty} : WellTyped D c →
      WellTyped D x → WellTyped D y → Ty.booleanOrUnknown c.type = true →
      Ty.branchType? x.type y.type = some t → Ty.NotedAs t tag.note →
      WellTyped D (.conditional tag c x y)
  | element {tag : Tag (Option Ty)} {a i : TypedExpr} {t : Option Ty} : WellTyped D a →
      WellTyped D i → elementType a.type i.type = .ok t → Ty.NotedAs t tag.note →
      WellTyped D (.element tag a i)
  | call {tag : Tag (Option Ty)} {f : String} {as : List TypedExpr} {t : Ty} :
      (∀ a ∈ as, WellTyped D a) → D.returnType? f (as.map Expr.type) = some t →
      tag.note = some t → WellTyped D (.call tag f as)
  /-- A statement by itself may replace the sequence of which it is all. -/
  | sequence {tag : Tag (Option Ty)} {ss : List TypedExpr} : (∀ s ∈ ss, WellTyped D s) →
      Ty.NotedAs (lastType ss) tag.note → (∀ s, ss = [s] → tag.note = s.type) →
      WellTyped D (.sequence tag ss)

/-! ## Parts and places -/

variable {D : Declarations}

/-- Parentheses have a rule of their own, but ask no less of what they hold. -/
theorem WellTyped.operand {tag : Tag (Option Ty)} {op : UnaryOp} {x : TypedExpr}
    (h : WellTyped D (.unary tag op x)) : WellTyped D x := by
  cases h with
  | group hx _ => exact hx
  | unary _ hx _ _ => exact hx

theorem hasType_of_literal {t : Tag (Option Ty)} {v : Literal}
    (h : WellTyped D (.literal t v)) : v.toValue.HasType t.note := by
  cases h with
  | literal hv => exact hv

section Parts

variable {tag : Tag (Option Ty)} {op : BinaryOp} {l r x v c y a i : TypedExpr}

theorem WellTyped.operands (h : WellTyped D (.binary tag op l r)) :
    WellTyped D l ∧ WellTyped D r := by
  cases h with
  | binary hl hr _ _ => exact ⟨hl, hr⟩

theorem WellTyped.target_value (h : WellTyped D (.assignment tag x v)) :
    WellTyped D x ∧ WellTyped D v := by
  cases h with
  | assignment hx hv _ _ _ => exact ⟨hx, hv⟩

theorem WellTyped.condition_branches (h : WellTyped D (.conditional tag c x y)) :
    WellTyped D c ∧ WellTyped D x ∧ WellTyped D y := by
  cases h with
  | conditional hc hx hy _ _ _ => exact ⟨hc, hx, hy⟩

/-- A branch has a type that the conditional widens to its own. -/
theorem WellTyped.branch (h : WellTyped D (.conditional tag c x y)) (taken : Bool) :
    WellTyped D (if taken then x else y) ∧ Ty.Widens (if taken then x else y).type tag.note := by
  cases h with
  | conditional _ hx hy _ ht hnote =>
    obtain ⟨hxt, hyt⟩ := Ty.widens_of_branchType? ht
    cases taken with
    | true => exact ⟨hx, hxt.trans_notedAs hnote⟩
    | false => exact ⟨hy, hyt.trans_notedAs hnote⟩

theorem WellTyped.array_index (h : WellTyped D (.element tag a i)) :
    WellTyped D a ∧ WellTyped D i := by
  cases h with
  | element ha hi _ _ => exact ⟨ha, hi⟩

theorem WellTyped.arguments {name : String} {as : List TypedExpr}
    (h : WellTyped D (.call tag name as)) : ∀ a ∈ as, WellTyped D a := by
  cases h with
  | call has _ _ => exact has

theorem WellTyped.statements {ss : List TypedExpr} (h : WellTyped D (.sequence tag ss)) :
    ∀ s ∈ ss, WellTyped D s := by
  cases h with
  | sequence hss _ _ => exact hss

end Parts

theorem WellTyped.unary_inv {tag : Tag (Option Ty)} {op : UnaryOp} {x : TypedExpr}
    (h : WellTyped D (.unary tag op x)) :
    ∃ t, op.resultType x.type = .ok t ∧ Ty.NotedAs t tag.note := by
  cases h with
  | group _ hnote => exact ⟨_, rfl, .inr hnote.symm⟩
  | unary _ _ ht hnote => exact ⟨_, ht, hnote⟩

/-- What the typing rules ask of a connective and its operands. -/
theorem WellTyped.connective_inv {tag : Tag (Option Ty)} {c : Connective} {l r : TypedExpr}
    (h : WellTyped D (.binary tag (.connective c) l r)) :
    WellTyped D l ∧ WellTyped D r ∧ Ty.booleanOrUnknown l.type = true ∧
      Ty.booleanOrUnknown r.type = true ∧ tag.note = some .boolean := by
  cases h with
  | binary hl hr ht hnote =>
    cases BinaryOp.rule_of_resultType ht with
    | connective _ hlt hrt => exact ⟨hl, hr, hlt, hrt, hnote.eq_of_some⟩

theorem WellTyped.type_of_isPlace {e : TypedExpr} (h : WellTyped D e) (hplace : e.isPlace = true) :
    ∃ t, e.type = some t := by
  induction h with
  | @var tag name t _ hnote => exact ⟨t, hnote⟩
  | @element tag a i t _ _ ht hnote iha =>
    obtain ⟨u, hu⟩ := iha hplace
    rcases (elementType_eq_ok ht).2 with ⟨hnone, -⟩ | ⟨s, depth, -, rfl⟩
    · rw [hu] at hnone; cases hnone
    · exact ⟨_, hnote.eq_of_some⟩
  | _ => cases hplace

theorem WellTyped.target? {e place : TypedExpr} (h : WellTyped D e)
    (hplace : e.target? = some place) : WellTyped D place ∧ place.isPlace = true := by
  induction h with
  | var ht hnote =>
    cases hplace
    exact ⟨.var ht hnote, rfl⟩
  | group _ _ ih => exact ih hplace
  | unary hop =>
    rw [Expr.target?_unary hop] at hplace
    cases hplace
  | @element tag a i t ha hi ht hnote =>
    obtain ⟨hisPlace, rfl⟩ := Expr.target?_element.mp hplace
    exact ⟨.element ha hi ht hnote, hisPlace⟩
  | assignment _ _ _ _ _ _ ihv => exact ihv hplace
  | _ => cases hplace

/-- An assignment has the type of its place, and places always have one. -/
theorem WellTyped.type_of_assignment {tag : Tag (Option Ty)} {x v : TypedExpr}
    (h : WellTyped D (.assignment tag x v)) : ∃ t, tag.note = some t := by
  cases h with
  | assignment hx _ hplace _ hnote =>
    obtain ⟨hp, hisPlace⟩ := hx.target? hplace
    obtain ⟨t, ht⟩ := hp.type_of_isPlace hisPlace
    exact ⟨t, hnote.trans ht⟩

end TypedExpr

/-- The operator that the rules choose is one that they choose again. -/
theorem BinaryOp.resultType_chosen {op chosen : BinaryOp} {l r t : Option Ty}
    (h : op.resultType l r = .ok (chosen, t)) : chosen.resultType l r = .ok (chosen, t) := by
  cases rule_of_resultType h with
  | join _ _ hj => simp [resultType, hj]
  | arithmetic | power | relation | connective => exact h

theorem Literal.hasType_type? (v : Literal) : v.toValue.HasType v.type? := by
  cases v with
  | null => exact .null _
  | boolean b => exact .boolean b
  | integer n => exact .integer n
  | decimal d => exact .decimal d
  | string s => exact .string s
  | date d => exact .date d

/-- Only null can be noted with another type than its own. -/
theorem Literal.notedAs_type? {v : Literal} {t : Option Ty} (h : v.toValue.HasType t) :
    Ty.NotedAs v.type? t := by
  cases v with
  | null => exact .inl rfl
  | boolean | integer | decimal | string | date => cases h; exact .inr rfl

/-! ## What the checker returns -/

namespace RawExpr

open TypedExpr

variable {D : Declarations}

/-- What checking returns for the members of a list has a property that it has for each. -/
theorem forall_of_checkAll {Q : TypedExpr → Prop} {es : List RawExpr} {ts : List TypedExpr}
    (h : checkAll D es = .ok ts) (hQ : ∀ e ∈ es, ∀ {t}, check D e = .ok t → Q t) :
    ∀ t ∈ ts, Q t := by
  intro t ht
  obtain ⟨e, he, hcheck⟩ := exists_left_of_forall₂ (forall₂_of_checkAll h) t ht
  exact hQ e he hcheck

/-- **The checker returns well-typed expressions.** -/
theorem wellTyped_of_check {e : RawExpr} {t : TypedExpr} (h : check D e = .ok t) :
    WellTyped D t := by
  induction e using Expr.induct generalizing t with
  | literal tag v =>
    obtain rfl := check_literal_eq_ok h
    exact .literal v.hasType_type?
  | var tag name =>
    obtain ⟨u, hu, rfl⟩ := check_var_eq_ok h
    exact .var hu rfl
  | unary tag op x ih =>
    obtain ⟨x', type, hx, htype, rfl⟩ := check_unary_eq_ok h
    cases op with
    | group =>
      cases htype
      exact .group (ih hx) rfl
    | positive | negative | not => exact .unary (by simp) (ih hx) htype (.refl _)
  | binary tag op l r ihl ihr =>
    obtain ⟨l', r', chosen, type, hl, hr, htype, rfl⟩ := check_binary_eq_ok h
    exact .binary (ihl hl) (ihr hr) (BinaryOp.resultType_chosen htype) (.refl _)
  | assignment tag x v ihx ihv =>
    obtain ⟨x', v', place, hx, hv, hplace, ha, rfl⟩ := check_assignment_eq_ok h
    exact .assignment (ihx hx) (ihv hv) hplace ha rfl
  | conditional tag c x y ihc ihx ihy =>
    obtain ⟨c', x', y', type, hc, hx, hy, hb, htype, rfl⟩ := check_conditional_eq_ok h
    exact .conditional (ihc hc) (ihx hx) (ihy hy) hb htype (.refl _)
  | element tag a i iha ihi =>
    obtain ⟨a', i', type, ha, hi, htype, rfl⟩ := check_element_eq_ok h
    exact .element (iha ha) (ihi hi) htype (.refl _)
  | call tag f as ih =>
    obtain ⟨as', u, has, hu, rfl⟩ := check_call_eq_ok h
    exact .call (forall_of_checkAll has ih) hu rfl
  | sequence tag ss ih =>
    obtain ⟨ss', hss, rfl⟩ := check_sequence_eq_ok h
    refine .sequence (forall_of_checkAll hss ih) (.refl _) ?_
    intro s hs
    subst hs
    simp [lastType]

end RawExpr

end ComputedField
