import ComputedField.Environment.Library
import ComputedField.Proofs.Compilation
import ComputedField.Proofs.Folding.Preservation
import Mathlib

/-!
# Calls and assignments that folding keeps

Folding drops calls and assignments only with the part of the expression that they stand in. Those
that are left stand in their old order, and nothing that evaluation looks up for them has changed: a
call has arguments of the types it had, which select the function, and an assignment leads to the
place it led to (`Step.effects`). With the type of the whole this is all that is settled before a
formula runs (`fold_keepsStatics`).
-/

set_option autoImplicit false

namespace ComputedField

namespace Expr

variable {α : Type}

mutual

/-- The calls and the assignments of an expression, each before those in its parts. -/
def effects : Expr α → List (Expr α)
  | literal .. | var .. => []
  | unary _ _ x => x.effects
  | binary _ _ l r => l.effects ++ r.effects
  | e@(assignment _ x v) => e :: (x.effects ++ v.effects)
  | conditional _ c x y => c.effects ++ x.effects ++ y.effects
  | element _ a i => a.effects ++ i.effects
  | e@(call _ _ as) => e :: effectsAll as
  | sequence _ ss => effectsAll ss

def effectsAll : List (Expr α) → List (Expr α)
  | [] => []
  | e :: es => e.effects ++ effectsAll es

end

theorem effectsAll_append (es ds : List (Expr α)) :
    effectsAll (es ++ ds) = effectsAll es ++ effectsAll ds := by
  induction es with
  | nil => rfl
  | cons e es ih => rw [List.cons_append, effectsAll, effectsAll, ih, List.append_assoc]

theorem mem_effectsAll {e : Expr α} {es : List (Expr α)} :
    e ∈ effectsAll es ↔ ∃ x ∈ es, e ∈ x.effects := by
  induction es with
  | nil => simp [effectsAll]
  | cons x xs ih => simp [effectsAll, ih]

end Expr

namespace TypedExpr

variable {D : Declarations} {ctx : MathContext}

/-! ## Which expressions these are -/

theorem WellTyped.of_mem_effects {e a : TypedExpr} (h : WellTyped D e) (ha : a ∈ e.effects) :
    WellTyped D a ∧ ((∃ tag f as, a = .call tag f as) ∨ ∃ tag x v, a = .assignment tag x v) := by
  induction e using Expr.induct with
  | literal | var => cases ha
  | unary tag op x ih => exact ih h.operand ha
  | binary tag op l r ihl ihr =>
    obtain ⟨hl, hr⟩ := h.operands
    rcases List.mem_append.mp ha with ha | ha
    · exact ihl hl ha
    · exact ihr hr ha
  | assignment tag x v ihx ihv =>
    obtain ⟨hx, hv⟩ := h.target_value
    rcases List.mem_cons.mp ha with rfl | ha
    · exact ⟨h, .inr ⟨tag, x, v, rfl⟩⟩
    · rcases List.mem_append.mp ha with ha | ha
      · exact ihx hx ha
      · exact ihv hv ha
  | conditional tag c x y ihc ihx ihy =>
    obtain ⟨hc, hx, hy⟩ := h.condition_branches
    rcases List.mem_append.mp ha with ha | ha
    · rcases List.mem_append.mp ha with ha | ha
      · exact ihc hc ha
      · exact ihx hx ha
    · exact ihy hy ha
  | element tag b i ihb ihi =>
    obtain ⟨hb, hi⟩ := h.array_index
    rcases List.mem_append.mp ha with ha | ha
    · exact ihb hb ha
    · exact ihi hi ha
  | call tag f as ih =>
    rcases List.mem_cons.mp ha with rfl | ha
    · exact ⟨h, .inl ⟨tag, f, as, rfl⟩⟩
    · obtain ⟨x, hx, ha⟩ := Expr.mem_effectsAll.mp ha
      exact ih x hx (h.arguments x hx) ha
  | sequence tag ss ih =>
    obtain ⟨x, hx, ha⟩ := Expr.mem_effectsAll.mp ha
    exact ih x hx (h.statements x hx) ha

/-! ## What stays of a call and of an assignment -/

/-- The call or the assignment on the left is what is left of the one on the right. -/
inductive Remains (ctx : MathContext) : TypedExpr → TypedExpr → Prop where
  | call {tag : Tag (Option Ty)} {f : String} {as as' : List TypedExpr} :
      as'.map Expr.type = as.map Expr.type → Remains ctx (.call tag f as') (.call tag f as)
  | assignment {tag : Tag (Option Ty)} {x x' v v' place place' : TypedExpr} :
      x.target? = some place → x'.target? = some place' → SamePlace ctx place' place →
      Remains ctx (.assignment tag x' v') (.assignment tag x v)

theorem Remains.trans {p q r : TypedExpr} (hpq : Remains ctx p q) (hqr : Remains ctx q r) :
    Remains ctx p r := by
  cases hqr with
  | call htypes =>
    cases hpq with
    | call htypes' => exact .call (htypes'.trans htypes)
  | assignment hplace hplace' hsame =>
    cases hpq with
    | assignment hq hp hsame' =>
      rw [hplace'] at hq
      cases hq
      exact .assignment hplace hp (hsame'.trans hsame)

/-- What is left of the calls and the assignments of one expression are those of another, in their
order. -/
abbrev Retains (ctx : MathContext) (remaining all : List TypedExpr) : Prop :=
  List.SublistForall₂ (Remains ctx) remaining all

theorem Retains.trans {as bs cs : List TypedExpr} (hab : Retains ctx as bs)
    (hbc : Retains ctx bs cs) : Retains ctx as cs :=
  have : IsTrans TypedExpr (Remains ctx) := ⟨fun _ _ _ => Remains.trans⟩
  List.SublistForall₂.is_trans.trans as bs cs hab hbc

theorem Retains.append {as as' bs bs' : List TypedExpr} (ha : Retains ctx as' as)
    (hb : Retains ctx bs' bs) : Retains ctx (as' ++ bs') (as ++ bs) := by
  obtain ⟨cs, hcs, hsub⟩ := List.sublistForall₂_iff.mp ha
  obtain ⟨ds, hds, hsub'⟩ := List.sublistForall₂_iff.mp hb
  exact List.sublistForall₂_iff.mpr ⟨cs ++ ds, List.rel_append hcs hds, hsub.append hsub'⟩

theorem WellTyped.retains_of_sublist {e : TypedExpr} {as : List TypedExpr} (h : WellTyped D e)
    (has : as.Sublist e.effects) : Retains ctx as e.effects := by
  refine List.sublistForall₂_iff.mpr ⟨as, List.forall₂_same.mpr fun a ha => ?_, has⟩
  obtain ⟨hwell, hcall | hassignment⟩ := h.of_mem_effects (has.subset ha)
  · obtain ⟨tag, f, as, rfl⟩ := hcall
    exact .call rfl
  · obtain ⟨tag, x, v, rfl⟩ := hassignment
    cases hwell with
    | assignment _ _ hplace _ _ => exact .assignment hplace hplace (.refl _)

theorem WellTyped.retains_self {e : TypedExpr} (h : WellTyped D e) :
    Retains ctx e.effects e.effects :=
  h.retains_of_sublist (List.Sublist.refl _)

theorem retains_effectsAll_self {es : List TypedExpr} (h : ∀ e ∈ es, WellTyped D e) :
    Retains ctx (Expr.effectsAll es) (Expr.effectsAll es) := by
  induction es with
  | nil => exact .nil
  | cons e es ih =>
    exact (h e List.mem_cons_self).retains_self.append
      (ih fun x hx => h x (List.mem_cons_of_mem e hx))

/-! ## What a rewrite drops -/

/-- Calls and assignments always have a type, so that none of them is noted anew. -/
theorem WellTyped.effects_withNote {e : TypedExpr} (h : WellTyped D e) (ht : e.type = none)
    (note : Option Ty) : (e.withNote note).effects = e.effects := by
  cases h with
  | call _ _ hnote => exact absurd (hnote.symm.trans ht) (by simp)
  | assignment hx hv hplace ha hnote =>
    obtain ⟨t, htype⟩ := (WellTyped.assignment hx hv hplace ha hnote).type_of_assignment
    exact absurd (htype.symm.trans ht) (by simp)
  | _ => rfl

theorem effects_truthLiteral (b : Option Bool) (token : Token) :
    (truthLiteral b token).effects = [] := by
  cases b <;> rfl

theorem WellTyped.effects_asBoolean {e : TypedExpr} (h : WellTyped D e) :
    (TypedExpr.asBoolean e).effects = e.effects := by
  unfold TypedExpr.asBoolean
  split
  · rename_i hnone
    exact h.effects_withNote hnone _
  · rfl

theorem WellTyped.effects_adapted? {branch z : TypedExpr} {t : Option Ty} (h : WellTyped D branch)
    (ht : Ty.Widens branch.type t) (hz : TypedExpr.adapted? branch t = some z) :
    z.effects = branch.effects := by
  rcases eq_of_adapted? ht hz with ⟨rfl, -⟩ | ⟨n, hn, -, rfl⟩ | ⟨hnone, rfl⟩
  · rfl
  · obtain ⟨_, rfl⟩ := eq_literal_of_literal? hn
    rfl
  · exact h.effects_withNote hnone t

/-- A rewrite brings no call and no assignment, and changes none. -/
theorem Rewrite.effects_sublist {e e' : TypedExpr} (hr : Rewrite ctx e e') (h : WellTyped D e) :
    e'.effects.Sublist e.effects := by
  cases hr with
  | group => exact List.Sublist.refl _
  | unary | binary | nullOperand => exact List.nil_sublist _
  | determiningLeft | unknownLeft | determiningRight =>
    rw [effects_truthLiteral]
    exact List.nil_sublist _
  | neutralLeft =>
    rw [h.operands.2.effects_asBoolean]
    exact List.sublist_append_right _ _
  | neutralRight =>
    rw [h.operands.1.effects_asBoolean]
    exact List.sublist_append_left _ _
  | logic => exact List.Sublist.refl _
  | logicUnknownLeft => exact List.Sublist.refl _
  | logicUnknownRight => exact List.Sublist.refl _
  | @branch tag t v x y z taken _ _ hz =>
    obtain ⟨hbranch, hwidens⟩ := h.branch taken
    rw [hbranch.effects_adapted? hwidens hz]
    cases taken with
    | true => exact (List.sublist_append_right _ _).trans (List.sublist_append_left _ _)
    | false => exact List.sublist_append_right _ _
  | single =>
    show List.Sublist _ (_ ++ [])
    rw [List.append_nil]

/-! ## The whole tree -/

theorem types_replace {before after : List TypedExpr} {a a' : TypedExpr} (h : a'.type = a.type) :
    (before ++ a' :: after).map Expr.type = (before ++ a :: after).map Expr.type := by
  simp [h]

theorem retains_replace {before after : List TypedExpr} {a a' : TypedExpr}
    (h : ∀ x ∈ before ++ a :: after, WellTyped D x) (ha : Retains ctx a'.effects a.effects) :
    Retains ctx (Expr.effectsAll (before ++ a' :: after))
      (Expr.effectsAll (before ++ a :: after)) := by
  rw [Expr.effectsAll_append, Expr.effectsAll_append]
  have hbefore : ∀ x ∈ before, WellTyped D x := fun x hx => h x (List.mem_append_left _ hx)
  have hafter : ∀ x ∈ after, WellTyped D x := fun x hx =>
    h x (List.mem_append_right _ (List.mem_cons_of_mem a hx))
  exact (retains_effectsAll_self hbefore).append (ha.append (retains_effectsAll_self hafter))

/-- **What a step leaves of the calls and the assignments.** -/
theorem Step.effects {e e' : TypedExpr} (hs : Step ctx e e') (h : WellTyped D e) :
    Retains ctx e'.effects e.effects := by
  induction hs with
  | root hr => exact h.retains_of_sublist (hr.effects_sublist h)
  | unary _ ih => exact ih h.operand
  | left _ ih => exact (ih h.operands.1).append h.operands.2.retains_self
  | right _ ih => exact h.operands.1.retains_self.append (ih h.operands.2)
  | target hs ih =>
    cases h with
    | assignment hx hv hplace _ _ =>
      obtain ⟨place', hplace', hsame⟩ := hs.target? hplace
      exact .cons (.assignment hplace hplace' hsame) ((ih hx).append hv.retains_self)
  | value _ ih =>
    cases h with
    | assignment hx hv hplace _ _ =>
      exact .cons (.assignment hplace hplace (.refl _)) (hx.retains_self.append (ih hv))
  | condition _ ih =>
    obtain ⟨hc, hx, hy⟩ := h.condition_branches
    exact ((ih hc).append hx.retains_self).append hy.retains_self
  | onTrue _ ih =>
    obtain ⟨hc, hx, hy⟩ := h.condition_branches
    exact (hc.retains_self.append (ih hx)).append hy.retains_self
  | onFalse _ ih =>
    obtain ⟨hc, hx, hy⟩ := h.condition_branches
    exact (hc.retains_self.append hx.retains_self).append (ih hy)
  | array _ ih => exact (ih h.array_index.1).append h.array_index.2.retains_self
  | index _ ih => exact h.array_index.1.retains_self.append (ih h.array_index.2)
  | @argument tag f before after a a' hs ih =>
    have ha := h.arguments a (by simp)
    exact .cons (.call (types_replace (hs.wellTyped ha).2)) (retains_replace h.arguments (ih ha))
  | @statement tag before after s s' _ ih =>
    exact retains_replace h.statements (ih (h.statements s (by simp)))

theorem Steps.effects {e e' : TypedExpr} (hs : Steps ctx e e') (h : WellTyped D e) :
    Retains ctx e'.effects e.effects := by
  induction hs with
  | refl => exact h.retains_self
  | tail hsteps hstep ih =>
    exact (hstep.effects (Steps.wellTyped hsteps h).1).trans ih

end TypedExpr

/-! ## Types, calls and assignments -/

namespace Environment

variable {σ : Type}

/-- What folding keeps of all that is settled before a formula runs. -/
structure KeepsStatics (env : Environment σ) (ctx : MathContext) (checked folded : TypedExpr) :
    Prop where
  type : folded.type = checked.type
  /-- What is left of the calls and the assignments, in their order. -/
  effects : TypedExpr.Retains ctx folded.effects checked.effects
  /-- Every call that is left selects a function, whose type it has. -/
  calls : ∀ tag f as, Expr.call tag f as ∈ folded.effects →
    ∃ function, env.select f (as.map Expr.type) = .ok function ∧
      tag.note = some function.returns
  /-- Every assignment that is left writes a place, which may store what is assigned. -/
  assignments : ∀ tag x v, Expr.assignment tag x v ∈ folded.effects →
    ∃ place, x.target? = some place ∧ Ty.assignable place.type v.type = true ∧
      tag.note = place.type

theorem select_of_returnType? {env : Environment σ} {f : String} {types : List (Option Ty)}
    {t : Ty} (h : env.declarations.returnType? f types = some t) :
    ∃ function, env.select f types = .ok function ∧ function.returns = t := by
  simp only [declarations, Option.map_eq_some_iff] at h
  obtain ⟨function, hfunction, hreturns⟩ := h
  exact ⟨function, by simp [select, hfunction], hreturns⟩

theorem keepsStatics_of_steps {env : Environment σ} {ctx : MathContext}
    {checked folded : TypedExpr} (h : TypedExpr.WellTyped env.declarations checked)
    (hsteps : TypedExpr.Steps ctx checked folded) : env.KeepsStatics ctx checked folded := by
  obtain ⟨hfolded, htype⟩ := hsteps.wellTyped h
  refine ⟨htype, hsteps.effects h, fun tag f as hmem => ?_, fun tag x v hmem => ?_⟩
  · cases (hfolded.of_mem_effects hmem).1 with
    | call _ hreturns hnote =>
      obtain ⟨function, hselect, rfl⟩ := select_of_returnType? hreturns
      exact ⟨function, hselect, hnote⟩
  · cases (hfolded.of_mem_effects hmem).1 with
    | assignment _ _ hplace hassignable hnote => exact ⟨_, hplace, hassignable, hnote⟩

/-- Folding changes nothing in the comparison with the expected type. -/
theorem compile_mismatch_iff {env : Environment σ} {ctx : MathContext} {expected : Option Ty}
    {text : String} {diagnose : Bool}
    (hfolds : ∀ err, (compile env.declarations ⟨ctx, true, diagnose⟩ expected text).outcome ≠
      .error (.folding err)) (t u : Ty) :
    (compile env.declarations ⟨ctx, true, diagnose⟩ expected text).outcome =
        .error (.mismatch t u) ↔
      (compile env.declarations ⟨ctx, false, diagnose⟩ expected text).outcome =
        .error (.mismatch t u) := by
  -- where the text is checked, both compare, and they compare the same type
  have hchecked (hscan : diagnose = true → ∃ tokens, tokenize text = .ok tokens)
      {checked : TypedExpr} (hchecks : Checks env.declarations text checked) :
      (compile env.declarations ⟨ctx, true, diagnose⟩ expected text).outcome =
          .error (.mismatch t u) ↔
        (compile env.declarations ⟨ctx, false, diagnose⟩ expected text).outcome =
          .error (.mismatch t u) := by
    have hstages (simplify : Bool) :=
      @compile_of_checks env.declarations ⟨ctx, simplify, diagnose⟩ expected text checked hscan
        hchecks
    rw [hstages false]
    rw [hstages true] at hfolds ⊢
    cases hfold : (TypedExpr.fold ctx checked).outcome with
    | error err =>
      refine absurd ?_ (hfolds err)
      simp [hfold, Except.mapError]
    | ok folded =>
      have htype := (TypedExpr.wellTyped_of_foldIn hchecks.wellTyped hfold).2
      simp [Except.mapError, checkExpected_eq_error, htype]
  constructor
  · intro h
    obtain ⟨hscan, checked, hchecks⟩ := checks_of_compile_mismatch h
    exact (hchecked hscan hchecks).mp h
  · intro h
    obtain ⟨hscan, checked, hchecks⟩ := checks_of_compile_mismatch h
    exact (hchecked hscan hchecks).mpr h

/-- **Folding keeps static types.** A folded formula has the type of the checked one, its calls are
calls with arguments of the same types, which select a function as before, and its assignments
write the places that they wrote. Whether a formula is of the type that is expected does not depend
on folding, unless folding fails. -/
theorem fold_keepsStatics (env : Environment σ) (ctx : MathContext) :
    (∀ tree checked folded, RawExpr.check env.declarations tree = .ok checked →
      (TypedExpr.fold ctx checked).outcome = .ok folded → env.KeepsStatics ctx checked folded) ∧
    ∀ expected text diagnose,
      (∀ err, (compile env.declarations ⟨ctx, true, diagnose⟩ expected text).outcome ≠
        .error (.folding err)) →
      ∀ t u,
        (compile env.declarations ⟨ctx, true, diagnose⟩ expected text).outcome =
            .error (.mismatch t u) ↔
          (compile env.declarations ⟨ctx, false, diagnose⟩ expected text).outcome =
            .error (.mismatch t u) := by
  refine ⟨fun tree checked folded hcheck hfold => ?_, fun expected text diagnose hfolds =>
    compile_mismatch_iff hfolds⟩
  exact keepsStatics_of_steps (RawExpr.wellTyped_of_check hcheck)
    (TypedExpr.foldsTo_of_foldIn hfold).steps

/-- An element whose index folds, a call over a branch, and a call that is dropped; the formula is
no string, with folding and without. -/
theorem fold_keepsStatics_element :
    ∃ tree checked folded,
      RawExpr.check (standard.declare (σ := Unit) "xs" (.array .integer 1)).declarations tree =
        .ok checked ∧
      (TypedExpr.fold .standard checked).outcome = .ok folded ∧
      (standard.declare (σ := Unit) "xs" (.array .integer 1)).KeepsStatics .standard checked
        folded ∧
      (compile (standard.declare (σ := Unit) "xs" (.array .integer 1)).declarations
          ⟨.standard, true, true⟩ (some .string)
          "xs[2 - 1] = abs(true ? xs[0] : abs(1))").outcome =
        .error (.mismatch .string .integer) ∧
      (compile (standard.declare (σ := Unit) "xs" (.array .integer 1)).declarations
          ⟨.standard, false, true⟩ (some .string)
          "xs[2 - 1] = abs(true ? xs[0] : abs(1))").outcome =
        .error (.mismatch .string .integer) := by
  obtain ⟨checked, hchecked, folded, hfold⟩ : ∃ checked,
      checkText? (standard.declare (σ := Unit) "xs" (.array .integer 1)).declarations
        "xs[2 - 1] = abs(true ? xs[0] : abs(1))" = some checked ∧
      ∃ folded, (TypedExpr.fold .standard checked).outcome = .ok folded :=
    ⟨_, by cbv, _, by cbv⟩
  obtain ⟨tree, -, hcheck⟩ := checks_iff.mpr hchecked
  have hmismatch : (compile (standard.declare (σ := Unit) "xs" (.array .integer 1)).declarations
      ⟨.standard, true, true⟩ (some .string) "xs[2 - 1] = abs(true ? xs[0] : abs(1))").outcome =
        .error (.mismatch .string .integer) := by cbv
  obtain ⟨hkeeps, hagree⟩ :=
    fold_keepsStatics (standard.declare (σ := Unit) "xs" (.array .integer 1)) .standard
  refine ⟨tree, checked, folded, hcheck, hfold, hkeeps tree checked folded hcheck hfold, hmismatch,
    (hagree _ _ _ (fun err h => ?_) _ _).mp hmismatch⟩
  rw [hmismatch] at h
  cases h

end Environment

end ComputedField
