import ComputedField.Proofs.Expr.Written
import ComputedField.Proofs.Folding.Step
import ComputedField.Proofs.Typing.WellTyped
import ComputedField.Proofs.Value.Operators

/-!
# Folding keeps types and shapes

A rewrite keeps the static type of a well-typed expression, so that whatever stands around it stays
well-typed (`Step.wellTyped`), and the place that an assignment writes (`Step.target?`). Shapes
are kept as well: folding brings no assignment and no sequence where there was none
(`Step.program`), and no name (`Step.formula`).
-/

set_option autoImplicit false

namespace ComputedField

theorem Literal.toValue_of_ofValue? {v : Value} {u : Literal} (h : ofValue? v = some u) :
    u.toValue = v := by
  cases v <;> cases h <;> rfl

namespace TypedExpr

variable {D : Declarations} {ctx : MathContext}

/-! ## Notes that can be set -/

/-- Where no type is known, and nothing hands its own type on, any type may be noted. -/
theorem WellTyped.withNote {e : TypedExpr} (h : WellTyped D e) (ht : e.type = none)
    (hw : isWrapper e = false) (note : Option Ty) : WellTyped D (e.withNote note) := by
  have hnoted : ∀ {t tagNote : Option Ty}, Ty.NotedAs t tagNote → tagNote = none →
      Ty.NotedAs t note := by
    intro t tagNote h hnone
    subst hnone
    rcases h with h | h
    · exact .inl h
    · exact .inl h
  cases h with
  | @literal tag v hv =>
    have hv : v.toValue.HasType none := ht ▸ hv
    refine .literal ?_
    show v.toValue.HasType note
    rw [hv.eq_null]
    exact .null note
  -- a variable, a place or a call always has a type
  | var _ hnote => exact absurd (hnote.symm.trans ht) (by simp)
  | group => cases hw
  | unary hop hx htype hnote => exact .unary hop hx htype (hnoted hnote ht)
  | binary hl hr htype hnote => exact .binary hl hr htype (hnoted hnote ht)
  | assignment hx hv hplace ha hnote =>
    obtain ⟨t, htype⟩ := (WellTyped.assignment hx hv hplace ha hnote).type_of_assignment
    exact absurd (htype.symm.trans ht) (by simp)
  | conditional hc hx hy hb htype hnote => exact .conditional hc hx hy hb htype (hnoted hnote ht)
  | element ha hi htype hnote => exact .element ha hi htype (hnoted hnote ht)
  | call _ _ hnote => exact absurd (hnote.symm.trans ht) (by simp)
  | @sequence tag ss hss hnote _ =>
    refine .sequence hss (hnoted hnote ht) ?_
    rintro s rfl
    cases hw

/-! ## What replaces a node -/

theorem wellTyped_truthLiteral (b : Option Bool) (token : Token) :
    WellTyped D (truthLiteral b token) := by
  cases b with
  | none => exact .literal (.null _)
  | some b => exact .literal (.boolean b)

theorem wellTyped_logicNode {c : Connective} {token : Token} {l r : TypedExpr}
    (hl : WellTyped D l) (hr : WellTyped D r) (hlt : Ty.booleanOrUnknown l.type = true)
    (hrt : Ty.booleanOrUnknown r.type = true) : WellTyped D (logicNode c token l r) := by
  refine .binary hl hr ?_ (.refl (some .boolean))
  simp [BinaryOp.resultType, hlt, hrt]

theorem WellTyped.asBoolean {e : TypedExpr} (h : WellTyped D e) (hw : isWrapper e = false)
    (ht : Ty.booleanOrUnknown e.type = true) :
    WellTyped D (asBoolean e) ∧ (asBoolean e).type = some .boolean := by
  unfold TypedExpr.asBoolean
  by_cases hnone : e.type = none
  · rw [if_pos hnone]
    exact ⟨h.withNote hnone hw _, Expr.type_withNote _ _⟩
  · rw [if_neg hnone]
    refine ⟨h, ?_⟩
    cases hsome : e.type with
    | none => exact absurd hsome hnone
    | some t =>
      rw [hsome] at ht
      simpa [Ty.booleanOrUnknown, Ty.knownIs] using ht

/-- Of a branch that the typing rules allow, only one without a type of its own is noted anew. -/
theorem eq_of_adapted? {branch z : TypedExpr} {t : Option Ty} (ht : Ty.Widens branch.type t)
    (hz : adapted? branch t = some z) :
    z = branch ∧ branch.type = t ∨
      (∃ n, branch.literal? = some (.integer n) ∧ t = some .decimal ∧
        z = .literal ⟨branch.token, some .decimal⟩ (.decimal (Decimal.ofInt n))) ∨
      branch.type = none ∧ z = branch.withNote t := by
  rcases adapted?_eq_some hz with h | h | ⟨rfl, hdiffer, hwidens⟩
  · exact .inl h
  · exact .inr (.inl h)
  · rcases ht with (hnone | hsame) | ⟨hinteger, hdecimal⟩
    · exact .inr (.inr ⟨hnone, rfl⟩)
    · exact absurd hsame hdiffer
    · exact absurd ⟨hdecimal, hinteger⟩ hwidens

/-- A branch of a conditional, adapted to the type of the conditional. -/
theorem WellTyped.adapted? {branch z : TypedExpr} {t : Option Ty} (h : WellTyped D branch)
    (hw : isWrapper branch = false) (ht : Ty.Widens branch.type t)
    (hz : adapted? branch t = some z) : WellTyped D z ∧ z.type = t := by
  rcases eq_of_adapted? ht hz with ⟨rfl, htype⟩ | ⟨n, -, rfl, rfl⟩ | ⟨hnone, rfl⟩
  · exact ⟨h, htype⟩
  · exact ⟨.literal (.decimal _), rfl⟩
  · exact ⟨h.withNote hnone hw _, Expr.type_withNote _ _⟩

/-- The literal for a computed value is of the type that the node was noted with. -/
theorem hasType_constant {w : Value} {u : Literal} {t note : Option Ty} (hw : w.HasType t)
    (hnote : Ty.NotedAs t note) (hu : Literal.ofValue? (w.castTo note) = some u) :
    u.toValue.HasType note := by
  rw [Literal.toValue_of_ofValue? hu]
  exact hw.castTo (.inl hnote)

/-- What an operator makes of constants is of the type that the rules give its node. -/
theorem WellTyped.hasType_of_unary {tag t : Tag (Option Ty)} {op : UnaryOp} {v : Literal}
    {w : Value} (h : WellTyped D (.unary tag op (.literal t v))) (hop : op ≠ .group)
    (hw : op.apply v.toValue = .ok w) : ∃ s, w.HasType s ∧ Ty.NotedAs s tag.note := by
  cases h with
  | group => exact absurd rfl hop
  | unary _ hx ht hnote =>
    obtain ⟨w', hw', hwt⟩ := UnaryOp.apply_hasType ht (hasType_of_literal hx)
    rw [hw] at hw'
    cases hw'
    exact ⟨_, hwt, hnote⟩

theorem WellTyped.hasType_of_binary {tag s t : Tag (Option Ty)} {op : BinaryOp} {v w : Literal}
    {z : Value} (h : WellTyped D (.binary tag op (.literal s v) (.literal t w)))
    (hz : op.apply ctx v.toValue w.toValue = .ok z) : ∃ u, z.HasType u ∧ Ty.NotedAs u tag.note := by
  cases h with
  | binary hl hr ht hnote =>
    rcases BinaryOp.apply_yields ht (hasType_of_literal hl) (hasType_of_literal hr) with
      ⟨z', hz', hzt⟩ | ⟨-, fault, hfault, -⟩
    · rw [hz] at hz'
      cases hz'
      exact ⟨_, hzt, hnote⟩
    · rw [hz] at hfault
      cases hfault

/-! ## Types -/

theorem Rewrite.wellTyped {e e' : TypedExpr} (hr : Rewrite ctx e e') (h : WellTyped D e) :
    WellTyped D e' ∧ e'.type = e.type := by
  cases hr with
  | group =>
    cases h with
    | group hx hnote => exact ⟨hx, hnote.symm⟩
    | unary hop => exact absurd rfl hop
  | unary hop hw hu =>
    obtain ⟨_, hwt, hnote⟩ := h.hasType_of_unary hop hw
    exact ⟨.literal (hasType_constant hwt hnote hu), rfl⟩
  | binary _ hz hu =>
    obtain ⟨_, hzt, hnote⟩ := h.hasType_of_binary hz
    exact ⟨.literal (hasType_constant hzt hnote hu), rfl⟩
  | nullOperand => exact ⟨.literal (.null _), rfl⟩
  | determiningLeft => exact ⟨wellTyped_truthLiteral _ _, h.connective_inv.2.2.2.2.symm⟩
  | neutralLeft hw =>
    obtain ⟨-, hr, -, hrt, hnote⟩ := h.connective_inv
    obtain ⟨hbool, htype⟩ := hr.asBoolean hw hrt
    exact ⟨hbool, htype.trans hnote.symm⟩
  | unknownLeft => exact ⟨wellTyped_truthLiteral _ _, h.connective_inv.2.2.2.2.symm⟩
  | determiningRight => exact ⟨wellTyped_truthLiteral _ _, h.connective_inv.2.2.2.2.symm⟩
  | neutralRight hw =>
    obtain ⟨hl, -, hlt, -, hnote⟩ := h.connective_inv
    obtain ⟨hbool, htype⟩ := hl.asBoolean hw hlt
    exact ⟨hbool, htype.trans hnote.symm⟩
  | logic =>
    obtain ⟨hl, hr, hlt, hrt, hnote⟩ := h.connective_inv
    exact ⟨wellTyped_logicNode hl hr hlt hrt, hnote.symm⟩
  | logicUnknownLeft =>
    obtain ⟨-, hr, -, hrt, hnote⟩ := h.connective_inv
    exact ⟨wellTyped_logicNode (wellTyped_truthLiteral _ _) hr rfl hrt, hnote.symm⟩
  | logicUnknownRight =>
    obtain ⟨hl, -, hlt, -, hnote⟩ := h.connective_inv
    exact ⟨wellTyped_logicNode hl (wellTyped_truthLiteral _ _) hlt rfl, hnote.symm⟩
  | @branch tag t v x y z taken _ hw hz =>
    obtain ⟨hbranch, hwidens⟩ := h.branch taken
    exact hbranch.adapted? hw hwidens hz
  | single =>
    cases h with
    | sequence hss _ hsingle => exact ⟨hss _ List.mem_cons_self, (hsingle _ rfl).symm⟩

/-! ## Places -/

/-- The place on the left is the one on the right: of its variable and at its depth, with indices
that have been rewritten. -/
inductive SamePlace (ctx : MathContext) : TypedExpr → TypedExpr → Prop where
  | refl (place : TypedExpr) : SamePlace ctx place place
  | element {tag : Tag (Option Ty)} {a a' i i' : TypedExpr} : SamePlace ctx a' a →
      Steps ctx i i' → SamePlace ctx (.element tag a' i') (.element tag a i)

namespace SamePlace

variable {place place' place'' : TypedExpr}

theorem type_eq (h : SamePlace ctx place' place) : place'.type = place.type := by
  cases h <;> rfl

theorem root?_eq (h : SamePlace ctx place' place) : place'.root? = place.root? := by
  induction h with
  | refl => rfl
  | element _ _ ih => exact ih

theorem trans (h' : SamePlace ctx place'' place') (h : SamePlace ctx place' place) :
    SamePlace ctx place'' place := by
  induction h generalizing place'' with
  | refl => exact h'
  | element ha hi ih =>
    cases h' with
    | refl => exact .element ha hi
    | element ha' hi' => exact .element (ih ha') (hi.trans hi')

end SamePlace

theorem Step.samePlace {e e' : TypedExpr} (hs : Step ctx e e') (h : e.isPlace = true) :
    e'.isPlace = true ∧ SamePlace ctx e' e := by
  induction hs with
  | root hr => cases hr <;> cases h
  | array _ ih =>
    obtain ⟨hisPlace, hsame⟩ := ih h
    exact ⟨hisPlace, .element hsame .refl⟩
  | index hs => exact ⟨h, .element (.refl _) (.single hs)⟩
  | _ => cases h

/-- An assignment writes the place that it wrote. -/
theorem Step.target? {e e' place : TypedExpr} (hs : Step ctx e e')
    (h : e.target? = some place) :
    ∃ place', e'.target? = some place' ∧ SamePlace ctx place' place := by
  induction hs with
  | root hr =>
    cases hr with
    | group => exact ⟨place, h, .refl place⟩
    | unary hop =>
      rw [Expr.target?_unary hop] at h
      cases h
    | _ => cases h
  | @unary tag op x x' _ ih =>
    cases op with
    | group => exact ih h
    | positive | negative | not => cases h
  | target _ => exact ⟨place, h, .refl place⟩
  | value _ ih => exact ih h
  | @array tag a a' i ha =>
    obtain ⟨hisPlace, rfl⟩ := Expr.target?_element.mp h
    obtain ⟨hisPlace', hsame⟩ := ha.samePlace hisPlace
    exact ⟨.element tag a' i, Expr.target?_element.mpr ⟨hisPlace', rfl⟩, .element hsame .refl⟩
  | @index tag a i i' hi =>
    obtain ⟨hisPlace, rfl⟩ := Expr.target?_element.mp h
    exact ⟨.element tag a i', Expr.target?_element.mpr ⟨hisPlace, rfl⟩,
      .element (.refl a) (.single hi)⟩
  | _ => cases h

/-! ## Rewriting in the parts -/

/-- The statement that is rewritten gives the sequence the type that it gave before. -/
theorem lastType_replace {before after : List TypedExpr} {s s' : TypedExpr}
    (h : s'.type = s.type) :
    lastType (before ++ s' :: after) = lastType (before ++ s :: after) := by
  cases after with
  | nil => simp [lastType, h]
  | cons a after => simp [lastType, List.getLast?_append, List.getLast?_cons]

theorem forall_mem_replace {P : TypedExpr → Prop} {before after : List TypedExpr}
    {a a' : TypedExpr} (h : ∀ x ∈ before ++ a :: after, P x) (ha' : P a') :
    ∀ x ∈ before ++ a' :: after, P x := by
  intro x hx
  rcases List.mem_append.mp hx with hx | hx
  · exact h x (List.mem_append_left _ hx)
  · rcases List.mem_cons.mp hx with rfl | hx
    · exact ha'
    · exact h x (List.mem_append_right _ (List.mem_cons_of_mem a hx))

/-- **Folding keeps types.** -/
theorem Step.wellTyped {e e' : TypedExpr} (hs : Step ctx e e') (h : WellTyped D e) :
    WellTyped D e' ∧ e'.type = e.type := by
  induction hs with
  | root hr => exact hr.wellTyped h
  | unary _ ih =>
    cases h with
    | group hx hnote =>
      obtain ⟨hx', htype⟩ := ih hx
      exact ⟨.group hx' (hnote.trans htype.symm), rfl⟩
    | unary hop hx ht hnote =>
      obtain ⟨hx', htype⟩ := ih hx
      exact ⟨.unary hop hx' (htype ▸ ht) hnote, rfl⟩
  | left _ ih =>
    cases h with
    | binary hl hr ht hnote =>
      obtain ⟨hl', htype⟩ := ih hl
      exact ⟨.binary hl' hr (htype ▸ ht) hnote, rfl⟩
  | right _ ih =>
    cases h with
    | binary hl hr ht hnote =>
      obtain ⟨hr', htype⟩ := ih hr
      exact ⟨.binary hl hr' (htype ▸ ht) hnote, rfl⟩
  | target hs ih =>
    cases h with
    | assignment hx hv hplace ha hnote =>
      obtain ⟨place', hplace', hsame⟩ := hs.target? hplace
      have htype := hsame.type_eq
      exact ⟨.assignment (ih hx).1 hv hplace' (htype ▸ ha) (hnote.trans htype.symm), rfl⟩
  | value _ ih =>
    cases h with
    | assignment hx hv hplace ha hnote =>
      obtain ⟨hv', htype⟩ := ih hv
      exact ⟨.assignment hx hv' hplace (htype ▸ ha) hnote, rfl⟩
  | condition _ ih =>
    cases h with
    | conditional hc hx hy hb ht hnote =>
      obtain ⟨hc', htype⟩ := ih hc
      exact ⟨.conditional hc' hx hy (htype ▸ hb) ht hnote, rfl⟩
  | onTrue _ ih =>
    cases h with
    | conditional hc hx hy hb ht hnote =>
      obtain ⟨hx', htype⟩ := ih hx
      exact ⟨.conditional hc hx' hy hb (htype ▸ ht) hnote, rfl⟩
  | onFalse _ ih =>
    cases h with
    | conditional hc hx hy hb ht hnote =>
      obtain ⟨hy', htype⟩ := ih hy
      exact ⟨.conditional hc hx hy' hb (htype ▸ ht) hnote, rfl⟩
  | array _ ih =>
    cases h with
    | element ha hi ht hnote =>
      obtain ⟨ha', htype⟩ := ih ha
      exact ⟨.element ha' hi (htype ▸ ht) hnote, rfl⟩
  | index _ ih =>
    cases h with
    | element ha hi ht hnote =>
      obtain ⟨hi', htype⟩ := ih hi
      exact ⟨.element ha hi' (htype ▸ ht) hnote, rfl⟩
  | @argument tag f before after a a' _ ih =>
    cases h with
    | call has ht hnote =>
      obtain ⟨ha', htype⟩ := ih (has a (by simp))
      refine ⟨.call (forall_mem_replace has ha') ?_ hnote, rfl⟩
      simpa [htype] using ht
  | @statement tag before after s s' _ ih =>
    cases h with
    | sequence hss hnote hsingle =>
      obtain ⟨hs', htype⟩ := ih (hss s (by simp))
      refine ⟨.sequence (forall_mem_replace hss hs') (lastType_replace htype ▸ hnote) ?_, rfl⟩
      -- what a single statement is rewritten to still stands for the whole sequence
      intro x hx
      obtain ⟨rfl, rfl, rfl⟩ : before = [] ∧ s' = x ∧ after = [] := by
        cases before with
        | nil => simpa using hx
        | cons b before => simp at hx
      exact (hsingle s rfl).trans htype.symm

theorem Steps.wellTyped {e e' : TypedExpr} (hs : Steps ctx e e') (h : WellTyped D e) :
    WellTyped D e' ∧ e'.type = e.type := by
  induction hs with
  | refl => exact ⟨h, rfl⟩
  | tail _ hstep ih =>
    obtain ⟨h', htype⟩ := hstep.wellTyped ih.1
    exact ⟨h', htype.trans ih.2⟩

/-- What folding returns is well-typed and has the type of what was folded. -/
theorem wellTyped_of_foldIn {guarded : Bool} {e e' : TypedExpr} (h : WellTyped D e)
    (hfold : (foldIn ctx guarded e).outcome = .ok e') : WellTyped D e' ∧ e'.type = e.type :=
  (foldsTo_of_foldIn hfold).steps.wellTyped h

/-! ## Shapes -/

theorem plain_truthLiteral (b : Option Bool) (token : Token) :
    (truthLiteral b token).Plain := by
  cases b with
  | none => exact .literal _ _
  | some b => exact .literal _ _

theorem plain_asBoolean {e : TypedExpr} (h : e.Plain) : (asBoolean e).Plain := by
  unfold asBoolean
  split
  · exact h.withTag _
  · exact h

theorem plain_adapted? {branch z : TypedExpr} {t : Option Ty} (h : branch.Plain)
    (hz : adapted? branch t = some z) : z.Plain := by
  rcases adapted?_eq_some hz with ⟨rfl, -⟩ | ⟨n, -, -, rfl⟩ | ⟨rfl, -, -⟩
  · exact h
  · exact .literal _ _
  · exact h.withTag _

theorem Rewrite.plain {e e' : TypedExpr} (hr : Rewrite ctx e e') (h : e.Plain) : e'.Plain := by
  cases hr with
  | group => cases h with | unary hx => exact hx
  | unary | binary | nullOperand => exact .literal _ _
  | determiningLeft | unknownLeft | determiningRight => exact plain_truthLiteral _ _
  | neutralLeft => cases h with | binary _ hr => exact plain_asBoolean hr
  | neutralRight => cases h with | binary hl _ => exact plain_asBoolean hl
  | logic => cases h with | binary hl hr => exact .binary hl hr
  | logicUnknownLeft => cases h with | binary _ hr => exact .binary (plain_truthLiteral _ _) hr
  | logicUnknownRight => cases h with | binary hl _ => exact .binary hl (plain_truthLiteral _ _)
  | @branch tag t v x y z taken _ _ hz =>
    cases h with
    | conditional _ hx hy =>
      cases taken with
      | true => exact plain_adapted? hx hz
      | false => exact plain_adapted? hy hz
  | single => cases h

theorem Step.plain {e e' : TypedExpr} (hs : Step ctx e e') (h : e.Plain) : e'.Plain := by
  induction hs with
  | root hr => exact hr.plain h
  | unary _ ih => cases h with | unary hx => exact .unary (ih hx)
  | left _ ih => cases h with | binary hl hr => exact .binary (ih hl) hr
  | right _ ih => cases h with | binary hl hr => exact .binary hl (ih hr)
  | target | value | statement => cases h
  | condition _ ih => cases h with | conditional hc hx hy => exact .conditional (ih hc) hx hy
  | onTrue _ ih => cases h with | conditional hc hx hy => exact .conditional hc (ih hx) hy
  | onFalse _ ih => cases h with | conditional hc hx hy => exact .conditional hc hx (ih hy)
  | array _ ih => cases h with | element ha hi => exact .element (ih ha) hi
  | index _ ih => cases h with | element ha hi => exact .element ha (ih hi)
  | argument _ ih =>
    cases h with
    | call has => exact .call (forall_mem_replace has (ih (has _ (by simp))))

theorem Step.statement_of_statement {e e' : TypedExpr} (hs : Step ctx e e') (h : e.Statement) :
    e'.Statement := by
  induction h generalizing e' with
  | plain h => exact .plain (hs.plain h)
  | assignment hx hv ih =>
    cases hs with
    | root hr => cases hr
    | target hs => exact .assignment (hs.plain hx) hv
    | value hs => exact .assignment hx (ih hs)

/-- **Folding keeps shapes.** -/
theorem Step.program {e e' : TypedExpr} (hs : Step ctx e e') (h : e.Program) : e'.Program := by
  cases h with
  | statement h => exact .statement (hs.statement_of_statement h)
  | sequence hss =>
    cases hs with
    | root hr => cases hr with | single => exact .statement (hss _ List.mem_cons_self)
    | statement hs =>
      exact .sequence (forall_mem_replace hss (hs.statement_of_statement (hss _ (by simp))))

theorem Steps.program {e e' : TypedExpr} (hs : Steps ctx e e') (h : e.Program) : e'.Program := by
  induction hs with
  | refl => exact h
  | tail _ hstep ih => exact hstep.program ih

/-! ## Names -/

theorem named_withTag {e : TypedExpr} (h : e.Named) (tag : Tag (Option Ty)) :
    (e.withTag tag).Named := by
  cases e <;> exact h

theorem named_truthLiteral (b : Option Bool) (token : Token) : (truthLiteral b token).Named :=
  fun _ hx => by cases hx

theorem named_asBoolean {e : TypedExpr} (h : e.Named) : (asBoolean e).Named := by
  unfold asBoolean
  split
  · exact named_withTag h _
  · exact h

theorem named_adapted? {branch z : TypedExpr} {t : Option Ty} (h : branch.Named)
    (hz : adapted? branch t = some z) : z.Named := by
  rcases adapted?_eq_some hz with ⟨rfl, -⟩ | ⟨n, -, -, rfl⟩ | ⟨rfl, -, -⟩
  · exact h
  · exact fun _ hx => by cases hx
  · exact named_withTag h _

theorem Rewrite.named {e e' : TypedExpr} (hr : Rewrite ctx e e') (h : e.Named) : e'.Named := by
  cases hr with
  | group => exact h
  | unary | binary | nullOperand => exact fun _ hx => by cases hx
  | determiningLeft | unknownLeft | determiningRight => exact named_truthLiteral _ _
  | neutralLeft => exact named_asBoolean (Expr.named_binary.mp h).2
  | neutralRight => exact named_asBoolean (Expr.named_binary.mp h).1
  | logic => exact h
  | logicUnknownLeft =>
    exact Expr.named_binary.mpr ⟨named_truthLiteral _ _, (Expr.named_binary.mp h).2⟩
  | logicUnknownRight =>
    exact Expr.named_binary.mpr ⟨(Expr.named_binary.mp h).1, named_truthLiteral _ _⟩
  | @branch tag t v x y z taken _ _ hz =>
    obtain ⟨-, hx, hy⟩ := Expr.named_conditional.mp h
    cases taken with
    | true => exact named_adapted? hx hz
    | false => exact named_adapted? hy hz
  | single => exact Expr.named_sequence.mp h _ List.mem_cons_self

theorem Step.named {e e' : TypedExpr} (hs : Step ctx e e') (h : e.Named) : e'.Named := by
  induction hs with
  | root hr => exact hr.named h
  | unary _ ih => exact ih h
  | left _ ih =>
    obtain ⟨hl, hr⟩ := Expr.named_binary.mp h
    exact Expr.named_binary.mpr ⟨ih hl, hr⟩
  | right _ ih =>
    obtain ⟨hl, hr⟩ := Expr.named_binary.mp h
    exact Expr.named_binary.mpr ⟨hl, ih hr⟩
  | target _ ih =>
    obtain ⟨hx, hv⟩ := Expr.named_assignment.mp h
    exact Expr.named_assignment.mpr ⟨ih hx, hv⟩
  | value _ ih =>
    obtain ⟨hx, hv⟩ := Expr.named_assignment.mp h
    exact Expr.named_assignment.mpr ⟨hx, ih hv⟩
  | condition _ ih =>
    obtain ⟨hc, hx, hy⟩ := Expr.named_conditional.mp h
    exact Expr.named_conditional.mpr ⟨ih hc, hx, hy⟩
  | onTrue _ ih =>
    obtain ⟨hc, hx, hy⟩ := Expr.named_conditional.mp h
    exact Expr.named_conditional.mpr ⟨hc, ih hx, hy⟩
  | onFalse _ ih =>
    obtain ⟨hc, hx, hy⟩ := Expr.named_conditional.mp h
    exact Expr.named_conditional.mpr ⟨hc, hx, ih hy⟩
  | array _ ih =>
    obtain ⟨ha, hi⟩ := Expr.named_element.mp h
    exact Expr.named_element.mpr ⟨ih ha, hi⟩
  | index _ ih =>
    obtain ⟨ha, hi⟩ := Expr.named_element.mp h
    exact Expr.named_element.mpr ⟨ha, ih hi⟩
  | argument _ ih =>
    obtain ⟨hf, has⟩ := Expr.named_call.mp h
    exact Expr.named_call.mpr ⟨hf, forall_mem_replace has (ih (has _ (by simp)))⟩
  | statement _ ih =>
    have hss := Expr.named_sequence.mp h
    exact Expr.named_sequence.mpr (forall_mem_replace hss (ih (hss _ (by simp))))

/-- **What can be written can be written after folding.** A sequence keeps its statements. -/
theorem Step.formula {e e' : TypedExpr} (hs : Step ctx e e') (h : e.Formula) : e'.Formula := by
  refine ⟨hs.program h.program, hs.named h.named, ?_⟩
  rintro tag ss rfl
  cases h.program with
  | statement hst => cases (hs.statement_of_statement hst).plain_of_isAssignment rfl
  | sequence =>
    have hseveral := h.several rfl
    cases hs with
    | root hr =>
      cases hr with
      | single => simp at hseveral
    | statement => simpa using hseveral

theorem Steps.formula {e e' : TypedExpr} (hs : Steps ctx e e') (h : e.Formula) : e'.Formula := by
  induction hs with
  | refl => exact h
  | tail _ hstep ih => exact hstep.formula ih

end TypedExpr

end ComputedField
