import ComputedField.Proofs.Folding.Nodes
import ComputedField.Proofs.Expr.Shape
import ComputedField.Proofs.Outcome
import Mathlib.Logic.Relation

/-!
# Folding as rewriting

`TypedExpr.Rewrite` lists what folding does to one node, and `TypedExpr.Step` does it at any place
of an expression. Every result of folding is reached by such steps (`foldsTo_of_foldIn`), guarded or
not: what every rewrite keeps, and what passes from the parts of an expression to the whole, folding
keeps as well.
-/

set_option autoImplicit false

namespace ComputedField

namespace TypedExpr

/-! ## The rewrites -/

/-- Parentheses, or a statement by itself: what folding takes away. -/
def isWrapper : TypedExpr → Bool
  | .unary _ .group _ => true
  | .sequence _ [_] => true
  | _ => false

/-- The rewrites of folding, at the root of an expression. -/
inductive Rewrite (ctx : MathContext) : TypedExpr → TypedExpr → Prop where
  | group {tag : Tag (Option Ty)} {x : TypedExpr} : Rewrite ctx (.unary tag .group x) x
  | unary {tag t : Tag (Option Ty)} {op : UnaryOp} {v u : Literal} {w : Value} : op ≠ .group →
      op.apply v.toValue = .ok w → Literal.ofValue? (w.castTo tag.note) = some u →
      Rewrite ctx (.unary tag op (.literal t v)) (.literal tag u)
  | binary {tag s t : Tag (Option Ty)} {op : BinaryOp} {v w u : Literal} {z : Value} :
      op.propagatesNull = true → op.apply ctx v.toValue w.toValue = .ok z →
      Literal.ofValue? (z.castTo tag.note) = some u →
      Rewrite ctx (.binary tag op (.literal s v) (.literal t w)) (.literal tag u)
  | nullOperand {tag : Tag (Option Ty)} {op : BinaryOp} {l r : TypedExpr} :
      op.propagatesNull = true → hasNullOperand l r = true →
      Rewrite ctx (.binary tag op l r) (.literal tag .null)
  | determiningLeft {tag t : Tag (Option Ty)} {c : Connective} {r : TypedExpr} :
      Rewrite ctx (.binary tag (.connective c) (.literal t (.boolean c.determining)) r)
        (truthLiteral (some c.determining) tag.token)
  | neutralLeft {tag t : Tag (Option Ty)} {c : Connective} {r : TypedExpr} :
      isWrapper r = false →
      Rewrite ctx (.binary tag (.connective c) (.literal t (.boolean !c.determining)) r)
        (asBoolean r)
  | unknownLeft {tag s t : Tag (Option Ty)} {c : Connective} {v : Literal} {b : Option Bool} :
      v.toValue = .ofTruth b →
      Rewrite ctx (.binary tag (.connective c) (.literal s .null) (.literal t v))
        (truthLiteral (c.apply none b) tag.token)
  | determiningRight {tag t : Tag (Option Ty)} {c : Connective} {l : TypedExpr} :
      l.isPure = true →
      Rewrite ctx (.binary tag (.connective c) l (.literal t (.boolean c.determining)))
        (truthLiteral (some c.determining) tag.token)
  | neutralRight {tag t : Tag (Option Ty)} {c : Connective} {l : TypedExpr} :
      isWrapper l = false →
      Rewrite ctx (.binary tag (.connective c) l (.literal t (.boolean !c.determining)))
        (asBoolean l)
  /-- A connective that stays is noted as a truth value, and so is a null beside it. -/
  | logic {tag : Tag (Option Ty)} {c : Connective} {l r : TypedExpr} :
      Rewrite ctx (.binary tag (.connective c) l r) (logicNode c tag.token l r)
  | logicUnknownLeft {tag t : Tag (Option Ty)} {c : Connective} {r : TypedExpr} :
      Rewrite ctx (.binary tag (.connective c) (.literal t .null) r)
        (logicNode c tag.token (truthLiteral none t.token) r)
  | logicUnknownRight {tag t : Tag (Option Ty)} {c : Connective} {l : TypedExpr} :
      Rewrite ctx (.binary tag (.connective c) l (.literal t .null))
        (logicNode c tag.token l (truthLiteral none t.token))
  | branch {tag t : Tag (Option Ty)} {v : Literal} {x y z : TypedExpr} {taken : Bool} :
      takenBranch? (.literal t v) = some taken → isWrapper (if taken then x else y) = false →
      adapted? (if taken then x else y) tag.note = some z →
      Rewrite ctx (.conditional tag (.literal t v) x y) z
  | single {tag : Tag (Option Ty)} {s : TypedExpr} : Rewrite ctx (.sequence tag [s]) s

/-- One rewrite, at the root or in one of the parts. -/
inductive Step (ctx : MathContext) : TypedExpr → TypedExpr → Prop where
  | root {e e' : TypedExpr} : Rewrite ctx e e' → Step ctx e e'
  | unary {tag : Tag (Option Ty)} {op : UnaryOp} {x x' : TypedExpr} : Step ctx x x' →
      Step ctx (.unary tag op x) (.unary tag op x')
  | left {tag : Tag (Option Ty)} {op : BinaryOp} {l l' r : TypedExpr} : Step ctx l l' →
      Step ctx (.binary tag op l r) (.binary tag op l' r)
  | right {tag : Tag (Option Ty)} {op : BinaryOp} {l r r' : TypedExpr} : Step ctx r r' →
      Step ctx (.binary tag op l r) (.binary tag op l r')
  | target {tag : Tag (Option Ty)} {x x' v : TypedExpr} : Step ctx x x' →
      Step ctx (.assignment tag x v) (.assignment tag x' v)
  | value {tag : Tag (Option Ty)} {x v v' : TypedExpr} : Step ctx v v' →
      Step ctx (.assignment tag x v) (.assignment tag x v')
  | condition {tag : Tag (Option Ty)} {c c' x y : TypedExpr} : Step ctx c c' →
      Step ctx (.conditional tag c x y) (.conditional tag c' x y)
  | onTrue {tag : Tag (Option Ty)} {c x x' y : TypedExpr} : Step ctx x x' →
      Step ctx (.conditional tag c x y) (.conditional tag c x' y)
  | onFalse {tag : Tag (Option Ty)} {c x y y' : TypedExpr} : Step ctx y y' →
      Step ctx (.conditional tag c x y) (.conditional tag c x y')
  | array {tag : Tag (Option Ty)} {a a' i : TypedExpr} : Step ctx a a' →
      Step ctx (.element tag a i) (.element tag a' i)
  | index {tag : Tag (Option Ty)} {a i i' : TypedExpr} : Step ctx i i' →
      Step ctx (.element tag a i) (.element tag a i')
  | argument {tag : Tag (Option Ty)} {f : String} {before after : List TypedExpr}
      {a a' : TypedExpr} : Step ctx a a' →
      Step ctx (.call tag f (before ++ a :: after)) (.call tag f (before ++ a' :: after))
  | statement {tag : Tag (Option Ty)} {before after : List TypedExpr} {s s' : TypedExpr} :
      Step ctx s s' →
      Step ctx (.sequence tag (before ++ s :: after)) (.sequence tag (before ++ s' :: after))

/-- Any number of rewrites, one after another. -/
abbrev Steps (ctx : MathContext) : TypedExpr → TypedExpr → Prop := Relation.ReflTransGen (Step ctx)

/-! ## Rewriting several parts -/

namespace Steps

variable {ctx : MathContext} {tag : Tag (Option Ty)}

theorem unary {op : UnaryOp} {x x' : TypedExpr} (h : Steps ctx x x') :
    Steps ctx (.unary tag op x) (.unary tag op x') :=
  h.lift _ fun _ _ => .unary

theorem binary {op : BinaryOp} {l l' r r' : TypedExpr} (hl : Steps ctx l l')
    (hr : Steps ctx r r') : Steps ctx (.binary tag op l r) (.binary tag op l' r') :=
  (hl.lift (Expr.binary tag op · r) fun _ _ => .left).trans
    (hr.lift (Expr.binary tag op l' ·) fun _ _ => .right)

theorem assignment {x x' v v' : TypedExpr} (hx : Steps ctx x x') (hv : Steps ctx v v') :
    Steps ctx (.assignment tag x v) (.assignment tag x' v') :=
  (hx.lift (Expr.assignment tag · v) fun _ _ => .target).trans
    (hv.lift (Expr.assignment tag x' ·) fun _ _ => .value)

theorem conditional {c c' x x' y y' : TypedExpr} (hc : Steps ctx c c') (hx : Steps ctx x x')
    (hy : Steps ctx y y') : Steps ctx (.conditional tag c x y) (.conditional tag c' x' y') :=
  (hc.lift (Expr.conditional tag · x y) fun _ _ => .condition).trans <|
    (hx.lift (Expr.conditional tag c' · y) fun _ _ => .onTrue).trans
      (hy.lift (Expr.conditional tag c' x' ·) fun _ _ => .onFalse)

theorem element {a a' i i' : TypedExpr} (ha : Steps ctx a a') (hi : Steps ctx i i') :
    Steps ctx (.element tag a i) (.element tag a' i') :=
  (ha.lift (Expr.element tag · i) fun _ _ => .array).trans
    (hi.lift (Expr.element tag a' ·) fun _ _ => .index)

/-- Parts of a list are rewritten from left to right, in whatever node `make` puts the list. -/
theorem list {make : List TypedExpr → TypedExpr}
    (hmake : ∀ before after {a a'}, Step ctx a a' →
      Step ctx (make (before ++ a :: after)) (make (before ++ a' :: after)))
    {as as' : List TypedExpr} (h : List.Forall₂ (Steps ctx) as as') :
    ∀ before, Steps ctx (make (before ++ as)) (make (before ++ as')) := by
  induction h with
  | nil => intro before; exact .refl
  | @cons a a' as as' ha _ ih =>
    intro before
    have hhead : Steps ctx (make (before ++ a :: as)) (make (before ++ a' :: as)) :=
      ha.lift (fun x => make (before ++ x :: as)) fun _ _ => hmake before as
    have htail := ih (before ++ [a'])
    rw [List.append_assoc, List.append_assoc] at htail
    exact hhead.trans htail

theorem call {f : String} {as as' : List TypedExpr} (h : List.Forall₂ (Steps ctx) as as') :
    Steps ctx (.call tag f as) (.call tag f as') :=
  list (fun _ _ _ _ => .argument) h []

theorem sequence {ss ss' : List TypedExpr} (h : List.Forall₂ (Steps ctx) ss ss') :
    Steps ctx (.sequence tag ss) (.sequence tag ss') :=
  list (fun _ _ _ _ => .statement) h []

end Steps

/-! ## Wrappers

Folding leaves none: the type of what replaces a node can be set on it. -/

theorem isWrapper_withNote (e : TypedExpr) (note : Option Ty) :
    isWrapper (e.withNote note) = isWrapper e := by
  cases e with
  | unary tag op x => cases op <;> rfl
  | sequence tag ss =>
    cases ss with
    | nil => rfl
    | cons s ss => cases ss <;> rfl
  | _ => rfl

theorem isWrapper_asBoolean (e : TypedExpr) : isWrapper (asBoolean e) = isWrapper e := by
  unfold asBoolean
  split
  · exact isWrapper_withNote e _
  · rfl

theorem isWrapper_adapted? {branch z : TypedExpr} {t : Option Ty} (h : adapted? branch t = some z)
    (hbranch : isWrapper branch = false) : isWrapper z = false := by
  rcases adapted?_eq_some h with ⟨rfl, -⟩ | ⟨n, -, -, rfl⟩ | ⟨rfl, -, -⟩
  · exact hbranch
  · rfl
  · rw [isWrapper_withNote]
    exact hbranch

/-- `e'` is reached by rewriting `e`, and is no wrapper. -/
structure FoldsTo (ctx : MathContext) (e e' : TypedExpr) : Prop where
  steps : Steps ctx e e'
  bare : isWrapper e' = false

theorem FoldsTo.after {ctx : MathContext} {e₀ e e' : TypedExpr} (h : FoldsTo ctx e e')
    (hsteps : Steps ctx e₀ e) : FoldsTo ctx e₀ e' :=
  ⟨hsteps.trans h.steps, h.bare⟩

/-! ## Nodes over folded operands -/

section Nodes

variable {ctx : MathContext} {guarded : Bool} {tag : Tag (Option Ty)} {e e' : TypedExpr}

theorem eq_literal_of_literal? {v : Literal} (h : e.literal? = some v) : ∃ t, e = .literal t v := by
  cases e with
  | literal t w => cases h; exact ⟨t, rfl⟩
  | _ => cases h

theorem constant_eq_some {r : Except EvalFault Value}
    (h : (constant guarded tag r).outcome = .ok (some e)) :
    ∃ w u, r = .ok w ∧ Literal.ofValue? (w.castTo tag.note) = some u ∧ e = .literal tag u := by
  cases r with
  | error fault =>
    cases guarded with
    | true => cases h
    | false => cases h
  | ok w =>
    cases hu : Literal.ofValue? (w.castTo tag.note) with
    | none =>
      simp only [constant, hu] at h
      cases h
    | some u =>
      simp only [constant, hu] at h
      cases h
      exact ⟨w, u, rfl, hu, rfl⟩

theorem foldsTo_foldUnary {op : UnaryOp} {x : TypedExpr} (hx : isWrapper x = false)
    (h : (foldUnary guarded tag op x).outcome = .ok e') : FoldsTo ctx (.unary tag op x) e' := by
  unfold foldUnary at h
  by_cases hop : op = .group
  · subst hop
    cases h
    exact ⟨.single (.root .group), hx⟩
  · have hbare : isWrapper (.unary tag op x) = false := by
      cases op with
      | group => exact absurd rfl hop
      | positive | negative | not => rfl
    cases hv : x.literal? with
    | none =>
      simp only [hop, hv, if_false] at h
      cases h
      exact ⟨.refl, hbare⟩
    | some v =>
      obtain ⟨t, rfl⟩ := eq_literal_of_literal? hv
      simp only [hop, Expr.literal?, if_false, Traced.outcome_bind] at h
      obtain ⟨folded, hfolded, h⟩ := bind_eq_ok.mp h
      cases folded with
      | none => cases h; exact ⟨.refl, hbare⟩
      | some e =>
        obtain ⟨w, u, hw, hu, rfl⟩ := constant_eq_some hfolded
        cases h
        exact ⟨.single (.root (.unary hop hw hu)), rfl⟩

theorem foldsTo_foldBinary {op : BinaryOp} {l r : TypedExpr} (hop : op.propagatesNull = true)
    (h : (foldBinary ctx guarded tag op l r).outcome = .ok e') :
    FoldsTo ctx (.binary tag op l r) e' := by
  unfold foldBinary at h
  split at h
  · rename_i v w hv hw
    obtain ⟨s, rfl⟩ := eq_literal_of_literal? hv
    obtain ⟨t, rfl⟩ := eq_literal_of_literal? hw
    rw [Traced.outcome_bind] at h
    obtain ⟨folded, hfolded, h⟩ := bind_eq_ok.mp h
    cases folded with
    -- a failure in a guarded place, or a value that no literal stands for
    | none => cases h; exact ⟨.refl, rfl⟩
    | some e =>
      obtain ⟨z, u, hz, hu, rfl⟩ := constant_eq_some hfolded
      cases h
      exact ⟨.single (.root (.binary hop hz hu)), rfl⟩
  · split at h
    · rename_i hnull
      rw [Bool.and_eq_true] at hnull
      cases h
      exact ⟨.single (.root (.nullOperand hnull.1 hnull.2)), rfl⟩
    · cases h
      exact ⟨.refl, rfl⟩

/-- The constant that plays a role beside a connective. -/
def Role.constant (c : Connective) : Role → Literal
  | determining => .boolean c.determining
  | neutral => .boolean !c.determining
  | unknown => .null

theorem eq_literal_of_role? {c : Connective} {role : Role} (h : role? c e = some role) :
    ∃ t, e = .literal t (role.constant c) := by
  unfold role? at h
  split at h
  · rename_i b hb
    obtain ⟨t, rfl⟩ := eq_literal_of_literal? hb
    clear hb
    refine ⟨t, ?_⟩
    by_cases hdet : b = c.determining
    · subst hdet
      simp only [if_true, Option.some.injEq] at h
      rw [← h]; rfl
    · simp only [hdet, if_false, Option.some.injEq] at h
      rw [← h, Bool.eq_not_of_ne hdet]; rfl
  · rename_i hnull
    obtain ⟨t, rfl⟩ := eq_literal_of_literal? hnull
    cases h
    exact ⟨t, rfl⟩
  · cases h

theorem foldsTo_foldUnknownLeft {c : Connective} {t : Tag (Option Ty)} {r : TypedExpr} :
    FoldsTo ctx (.binary tag (.connective c) (.literal t .null) r)
      (foldUnknownLeft c tag.token (.literal t .null) r) := by
  unfold foldUnknownLeft
  split
  · rename_i b hb
    obtain ⟨s, rfl⟩ := eq_literal_of_literal? hb
    exact ⟨.single (.root (.unknownLeft rfl)), rfl⟩
  · rename_i hnull
    obtain ⟨s, rfl⟩ := eq_literal_of_literal? hnull
    have hnone : c.apply none none = none := by cases c <;> rfl
    have hstep : Rewrite ctx (.binary tag (.connective c) (.literal t .null) (.literal s .null))
        (truthLiteral (c.apply none none) tag.token) := .unknownLeft rfl
    rw [hnone] at hstep
    exact ⟨.single (.root hstep), rfl⟩
  · exact ⟨.single (.root .logicUnknownLeft), rfl⟩

theorem foldsTo_foldByRight {c : Connective} {l r : TypedExpr} (hl : isWrapper l = false)
    (h : (foldByRight c tag.token l r).outcome = .ok e') :
    FoldsTo ctx (.binary tag (.connective c) l r) e' := by
  unfold foldByRight at h
  cases hrole : role? c r with
  | none =>
    simp only [hrole] at h
    cases h
    exact ⟨.single (.root .logic), rfl⟩
  | some role =>
    obtain ⟨t, rfl⟩ := eq_literal_of_role? hrole
    cases role with
    | determining =>
      simp only [hrole] at h
      split at h
      · rename_i hpure
        cases h
        exact ⟨.single (.root (.determiningRight hpure)), rfl⟩
      · cases h
        exact ⟨.single (.root .logic), rfl⟩
    | neutral =>
      simp only [hrole] at h
      cases h
      exact ⟨.single (.root (.neutralRight hl)), (isWrapper_asBoolean l).trans hl⟩
    | unknown =>
      simp only [hrole] at h
      cases h
      exact ⟨.single (.root .logicUnknownRight), rfl⟩

theorem eq_literal_of_takenBranch? {taken : Bool} (h : takenBranch? e = some taken) :
    ∃ t v, e = .literal t v := by
  unfold takenBranch? at h
  split at h
  · rename_i hv
    obtain ⟨t, rfl⟩ := eq_literal_of_literal? hv
    exact ⟨t, _, rfl⟩
  · rename_i hv
    obtain ⟨t, rfl⟩ := eq_literal_of_literal? hv
    exact ⟨t, _, rfl⟩
  · cases h

end Nodes

/-! ## The whole tree -/

section Tree

variable {ctx : MathContext} {guarded : Bool} {tag : Tag (Option Ty)}

theorem forall₂_of_foldAllIn {es es' : List TypedExpr}
    (h : (foldAllIn ctx guarded es).outcome = .ok es') :
    List.Forall₂ (fun e e' => (foldIn ctx guarded e).outcome = .ok e') es es' := by
  induction es generalizing es' with
  | nil =>
    rw [foldAllIn_nil] at h
    cases h
    exact .nil
  | cons e es ih =>
    rw [foldAllIn_cons] at h
    simp only [Traced.outcome_bind] at h
    obtain ⟨e₁, he, h⟩ := bind_eq_ok.mp h
    obtain ⟨es₁, hes, h⟩ := bind_eq_ok.mp h
    cases h
    exact .cons he (ih hes)

theorem foldsTo_of_foldAllIn {es es' : List TypedExpr}
    (h : (foldAllIn ctx guarded es).outcome = .ok es')
    (ih : ∀ e ∈ es, ∀ {guarded e'}, (foldIn ctx guarded e).outcome = .ok e' → FoldsTo ctx e e') :
    List.Forall₂ (FoldsTo ctx) es es' := by
  have hfolds := forall₂_of_foldAllIn h
  clear h
  induction hfolds with
  | nil => exact .nil
  | @cons e e' es es' he _ ihes =>
    exact .cons (ih e List.mem_cons_self he) (ihes fun x hx => ih x (List.mem_cons_of_mem e hx))

theorem foldsTo_foldConnective {c : Connective} {l r e' : TypedExpr}
    (ihl : ∀ {guarded l'}, (foldIn ctx guarded l).outcome = .ok l' → FoldsTo ctx l l')
    (ihr : ∀ {guarded r'}, (foldIn ctx guarded r).outcome = .ok r' → FoldsTo ctx r r')
    (h : (foldIn ctx guarded (.binary tag (.connective c) l r)).outcome = .ok e') :
    FoldsTo ctx (.binary tag (.connective c) l r) e' := by
  rw [foldIn_connective, Traced.outcome_bind] at h
  obtain ⟨l', hl, h⟩ := bind_eq_ok.mp h
  have hleft := ihl hl
  unfold foldRight at h
  cases hrole : role? c l' with
  | none =>
    simp only [hrole, Traced.outcome_bind] at h
    obtain ⟨r', hr, h⟩ := bind_eq_ok.mp h
    exact (foldsTo_foldByRight hleft.bare h).after (.binary hleft.steps (ihr hr).steps)
  | some role =>
    obtain ⟨t, rfl⟩ := eq_literal_of_role? hrole
    cases role with
    | determining =>
      -- the right operand is dropped as it is, whether it folds or not
      simp only [hrole] at h
      cases h
      exact ⟨(Steps.binary hleft.steps .refl).tail (.root .determiningLeft), rfl⟩
    | neutral =>
      simp only [hrole, Traced.outcome_bind, Traced.outcome_report, ok_bind] at h
      obtain ⟨r', hr, h⟩ := bind_eq_ok.mp h
      cases h
      have hright := ihr hr
      have hstep : Step ctx (.binary tag (.connective c) (.literal t (.boolean !c.determining)) r')
          (asBoolean r') := .root (.neutralLeft hright.bare)
      exact ⟨(Steps.binary hleft.steps hright.steps).tail hstep,
        (isWrapper_asBoolean r').trans hright.bare⟩
    | unknown =>
      simp only [hrole, Traced.outcome_bind] at h
      obtain ⟨r', hr, h⟩ := bind_eq_ok.mp h
      cases h
      exact foldsTo_foldUnknownLeft.after (.binary hleft.steps (ihr hr).steps)

theorem foldsTo_foldConditional {c x y e' : TypedExpr}
    (ihc : ∀ {guarded c'}, (foldIn ctx guarded c).outcome = .ok c' → FoldsTo ctx c c')
    (ihx : ∀ {guarded x'}, (foldIn ctx guarded x).outcome = .ok x' → FoldsTo ctx x x')
    (ihy : ∀ {guarded y'}, (foldIn ctx guarded y).outcome = .ok y' → FoldsTo ctx y y')
    (h : (foldIn ctx guarded (.conditional tag c x y)).outcome = .ok e') :
    FoldsTo ctx (.conditional tag c x y) e' := by
  rw [foldIn_conditional, Traced.outcome_bind] at h
  obtain ⟨c', hc, h⟩ := bind_eq_ok.mp h
  have hcondition := ihc hc
  unfold foldBranches at h
  cases htaken : takenBranch? c' with
  | none =>
    simp only [htaken, Traced.outcome_bind] at h
    obtain ⟨x', hx, h⟩ := bind_eq_ok.mp h
    obtain ⟨y', hy, h⟩ := bind_eq_ok.mp h
    cases h
    exact ⟨.conditional hcondition.steps (ihx hx).steps (ihy hy).steps, rfl⟩
  | some taken =>
    obtain ⟨t, v, rfl⟩ := eq_literal_of_takenBranch? htaken
    cases taken with
    | true =>
      simp only [htaken, Traced.outcome_bind] at h
      obtain ⟨x', hx, h⟩ := bind_eq_ok.mp h
      have honTrue := ihx hx
      cases hbranch : adapted? x' tag.note with
      | some branch =>
        simp only [hbranch] at h
        cases h
        exact ⟨(Steps.conditional hcondition.steps honTrue.steps .refl).tail
          (.root (.branch htaken honTrue.bare hbranch)), isWrapper_adapted? hbranch honTrue.bare⟩
      | none =>
        -- only the conditional widens the branch, so it has to stay
        simp only [hbranch, Traced.outcome_bind] at h
        obtain ⟨y', hy, h⟩ := bind_eq_ok.mp h
        cases h
        exact ⟨.conditional hcondition.steps honTrue.steps (ihy hy).steps, rfl⟩
    | false =>
      simp only [htaken, Traced.outcome_bind] at h
      obtain ⟨y', hy, h⟩ := bind_eq_ok.mp h
      have honFalse := ihy hy
      cases hbranch : adapted? y' tag.note with
      | some branch =>
        simp only [hbranch] at h
        cases h
        exact ⟨(Steps.conditional hcondition.steps .refl honFalse.steps).tail
          (.root (.branch htaken honFalse.bare hbranch)), isWrapper_adapted? hbranch honFalse.bare⟩
      | none =>
        simp only [hbranch, Traced.outcome_bind] at h
        obtain ⟨x', hx, h⟩ := bind_eq_ok.mp h
        cases h
        exact ⟨.conditional hcondition.steps (ihx hx).steps honFalse.steps, rfl⟩

/-- Whatever folding returns is reached by rewriting. -/
theorem foldsTo_of_foldIn {e e' : TypedExpr} (h : (foldIn ctx guarded e).outcome = .ok e') :
    FoldsTo ctx e e' := by
  induction e using Expr.induct generalizing guarded e' with
  | literal tag v =>
    rw [foldIn_literal] at h
    cases h
    exact ⟨.refl, rfl⟩
  | var tag name =>
    rw [foldIn_var] at h
    cases h
    exact ⟨.refl, rfl⟩
  | unary tag op x ih =>
    rw [foldIn_unary, Traced.outcome_bind] at h
    obtain ⟨x', hx, h⟩ := bind_eq_ok.mp h
    exact (foldsTo_foldUnary (ih hx).bare h).after (ih hx).steps.unary
  | binary tag op l r ihl ihr =>
    rcases op.propagatesNull_or_connective with hop | ⟨c, rfl⟩
    · rw [foldIn_binary hop] at h
      simp only [Traced.outcome_bind] at h
      obtain ⟨l', hl, h⟩ := bind_eq_ok.mp h
      obtain ⟨r', hr, h⟩ := bind_eq_ok.mp h
      exact (foldsTo_foldBinary hop h).after (.binary (ihl hl).steps (ihr hr).steps)
    · exact foldsTo_foldConnective ihl ihr h
  | assignment tag x v ihx ihv =>
    rw [foldIn_assignment] at h
    simp only [Traced.outcome_bind] at h
    obtain ⟨x', hx, h⟩ := bind_eq_ok.mp h
    obtain ⟨v', hv, h⟩ := bind_eq_ok.mp h
    cases h
    exact ⟨.assignment (ihx hx).steps (ihv hv).steps, rfl⟩
  | conditional tag c x y ihc ihx ihy => exact foldsTo_foldConditional ihc ihx ihy h
  | element tag a i iha ihi =>
    rw [foldIn_element] at h
    simp only [Traced.outcome_bind] at h
    obtain ⟨a', ha, h⟩ := bind_eq_ok.mp h
    obtain ⟨i', hi, h⟩ := bind_eq_ok.mp h
    cases h
    exact ⟨.element (iha ha).steps (ihi hi).steps, rfl⟩
  | call tag f as ih =>
    rw [foldIn_call, Traced.outcome_bind] at h
    obtain ⟨as', has, h⟩ := bind_eq_ok.mp h
    cases h
    exact ⟨.call ((foldsTo_of_foldAllIn has ih).imp fun _ _ h => h.steps), rfl⟩
  | sequence tag ss ih =>
    rw [foldIn_sequence] at h
    obtain ⟨ss', hss, h⟩ := bind_eq_ok.mp h
    have hall := foldsTo_of_foldAllIn hss ih
    have hsteps : Steps ctx (.sequence tag ss) (.sequence tag ss') :=
      .sequence (hall.imp fun _ _ h => h.steps)
    cases hall with
    | nil =>
      cases h
      exact ⟨hsteps, rfl⟩
    | cons hs hall =>
      cases hall with
      | nil =>
        -- what is left is the statement by itself, which has folded and is no wrapper
        cases h
        exact ⟨hsteps.tail (.root .single), hs.bare⟩
      | cons =>
        cases h
        exact ⟨hsteps, rfl⟩

end Tree

end TypedExpr

end ComputedField
