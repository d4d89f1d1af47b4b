import ComputedField.Proofs.Folding.Rewrites

/-!
# Folding keeps what evaluation does

A rewrite in a part of an expression is met by evaluation in a conforming world, and all that comes
after it meets the same world as before. So a step of folding keeps what the expression does
(`Step.agrees_of_plain`), and with it what a statement and a program do (`Step.agrees_of_program`).
-/

set_option autoImplicit false

namespace ComputedField

namespace TypedExpr

open Run

variable {σ : Type} {D : Declarations} {functions : Functions σ} {ctx : MathContext}

/-! ## Lists -/

theorem agrees_evalAll (hfs : functions.Conform D) {before after : List TypedExpr}
    {a a' : TypedExpr} (hbefore : ∀ x ∈ before, WellTyped D x)
    (h : Agrees D functions ctx a a') {w : World σ} (hw : w.vars.Conform D) :
    (evalAll functions ctx (before ++ a' :: after)).result w =
      (evalAll functions ctx (before ++ a :: after)).result w := by
  induction before generalizing w with
  | nil =>
    rw [List.nil_append, List.nil_append, evalAll_cons, evalAll_cons]
    exact result_bind_congr (h w hw) fun _ _ _ => rfl
  | cons b before ih =>
    rw [List.cons_append, List.cons_append, evalAll_cons, evalAll_cons]
    refine result_bind_congr rfl fun v w' hv => ?_
    have hw' := (((hbefore b List.mem_cons_self).keeps_eval hfs).ok hw hv).2
    have htail := ih (fun x hx => hbefore x (List.mem_cons_of_mem b hx)) hw'
    exact result_bind_congr htail fun _ _ _ => rfl

theorem agrees_evalLast (hfs : functions.Conform D) {before after : List TypedExpr}
    {s s' : TypedExpr} (hbefore : ∀ x ∈ before, WellTyped D x)
    (h : Agrees D functions ctx s s') {last : Value} {w : World σ} (hw : w.vars.Conform D) :
    (evalLast functions ctx last (before ++ s' :: after)).result w =
      (evalLast functions ctx last (before ++ s :: after)).result w := by
  induction before generalizing w last with
  | nil =>
    rw [List.nil_append, List.nil_append, evalLast_cons, evalLast_cons]
    exact result_bind_congr (h w hw) fun _ _ _ => rfl
  | cons b before ih =>
    rw [List.cons_append, List.cons_append, evalLast_cons, evalLast_cons]
    refine result_bind_congr rfl fun v w' hv => ?_
    have hw' := (((hbefore b List.mem_cons_self).keeps_eval hfs).ok hw hv).2
    exact ih (fun x hx => hbefore x (List.mem_cons_of_mem b hx)) hw'

/-! ## Parts of nodes

Up to the part that is rewritten everything is as it was, so that the part is evaluated in a world
whose variables conform; and what comes after it meets the same world. -/

theorem agrees_unary {tag : Tag (Option Ty)} {op : UnaryOp} {x x' : TypedExpr}
    (h : Agrees D functions ctx x x') :
    Agrees D functions ctx (.unary tag op x) (.unary tag op x') := by
  intro w hw
  rw [eval_unary, eval_unary]
  exact result_bind_congr (h w hw) fun _ _ _ => rfl

theorem agrees_left {tag : Tag (Option Ty)} {op : BinaryOp} {l l' r : TypedExpr}
    (h : Agrees D functions ctx l l') :
    Agrees D functions ctx (.binary tag op l r) (.binary tag op l' r) := by
  intro w hw
  rcases op.propagatesNull_or_connective with hop | ⟨c, rfl⟩
  · rw [eval_binary functions ctx tag hop, eval_binary functions ctx tag hop]
    exact result_bind_congr (h w hw) fun _ _ _ => rfl
  · rw [eval_connective, eval_connective]
    exact result_bind_congr (h w hw) fun _ _ _ => rfl

theorem agrees_right (hfs : functions.Conform D) {tag : Tag (Option Ty)} {op : BinaryOp}
    {l r r' : TypedExpr} (hl : WellTyped D l) (h : Agrees D functions ctx r r') :
    Agrees D functions ctx (.binary tag op l r) (.binary tag op l r') := by
  intro w hw
  rcases op.propagatesNull_or_connective with hop | ⟨c, rfl⟩
  · rw [eval_binary functions ctx tag hop, eval_binary functions ctx tag hop]
    refine result_bind_congr rfl fun a w' ha => ?_
    have hw' := ((hl.keeps_eval hfs).ok hw ha).2
    exact result_bind_congr (h w' hw') fun _ _ _ => rfl
  · rw [eval_connective, eval_connective]
    refine result_bind_congr rfl fun a w' ha => ?_
    have hw' := ((hl.keeps_eval hfs).ok hw ha).2
    cases a.truth with
    | error fault => rfl
    | ok b =>
      -- a left operand that decides keeps evaluation from the right one
      rw [result_bind_of_ok (result_located_ok ..), result_bind_of_ok (result_located_ok ..)]
      by_cases hdet : b = some c.determining
      · rw [evalRight, evalRight, if_pos hdet, if_pos hdet]
      · rw [evalRight_of_ne hdet, evalRight_of_ne hdet, bind_assoc, bind_assoc]
        exact result_bind_congr (h w' hw') fun _ _ _ => rfl

theorem agrees_condition {tag : Tag (Option Ty)} {c c' x y : TypedExpr}
    (h : Agrees D functions ctx c c') :
    Agrees D functions ctx (.conditional tag c x y) (.conditional tag c' x y) := by
  intro w hw
  rw [eval_conditional, eval_conditional]
  exact result_bind_congr (h w hw) fun _ _ _ => rfl

theorem agrees_branches (hfs : functions.Conform D) {tag : Tag (Option Ty)}
    {c x x' y y' : TypedExpr} (hc : WellTyped D c) (hx : Agrees D functions ctx x x')
    (hy : Agrees D functions ctx y y') :
    Agrees D functions ctx (.conditional tag c x y) (.conditional tag c x' y') := by
  intro w hw
  rw [eval_conditional, eval_conditional]
  refine result_bind_congr rfl fun a w' ha => ?_
  have hw' := ((hc.keeps_eval hfs).ok hw ha).2
  refine result_bind_congr rfl fun b w'' hb => ?_
  have hsame : w'' = w' := by
    cases hr : a.truth <;> rw [hr] at hb <;> cases hb
    rfl
  subst hsame
  refine result_bind_congr ?_ fun _ _ _ => rfl
  by_cases hbt : b = some true
  · rw [evalBranch, evalBranch, if_pos hbt, if_pos hbt]
    exact hx _ hw'
  · rw [evalBranch, evalBranch, if_neg hbt, if_neg hbt]
    exact hy _ hw'

theorem agrees_array {tag : Tag (Option Ty)} {a a' i : TypedExpr}
    (h : Agrees D functions ctx a a') :
    Agrees D functions ctx (.element tag a i) (.element tag a' i) := by
  intro w hw
  rw [eval_element, eval_element]
  exact result_bind_congr (h w hw) fun _ _ _ => rfl

theorem agrees_index (hfs : functions.Conform D) {tag : Tag (Option Ty)} {a i i' : TypedExpr}
    (ha : WellTyped D a) (h : Agrees D functions ctx i i') :
    Agrees D functions ctx (.element tag a i) (.element tag a i') := by
  intro w hw
  rw [eval_element, eval_element]
  refine result_bind_congr rfl fun v w' hv => ?_
  have hw' := ((ha.keeps_eval hfs).ok hw hv).2
  exact result_bind_congr (h w' hw') fun _ _ _ => rfl

/-- The types of the arguments select the function, so they have to stay. -/
theorem agrees_argument (hfs : functions.Conform D) {tag : Tag (Option Ty)} {name : String}
    {before after : List TypedExpr} {a a' : TypedExpr} (hbefore : ∀ x ∈ before, WellTyped D x)
    (htype : a'.type = a.type) (h : Agrees D functions ctx a a') :
    Agrees D functions ctx (.call tag name (before ++ a :: after))
      (.call tag name (before ++ a' :: after)) := by
  intro w hw
  have htypes : (before ++ a' :: after).map Expr.type = (before ++ a :: after).map Expr.type := by
    simp [htype]
  rw [eval_call, eval_call, htypes]
  exact result_bind_congr (agrees_evalAll hfs hbefore h hw) fun _ _ _ => rfl

/-! ## Targets -/

/-- As a target `e'` leads to its place by the same indices as `e`. -/
def AgreesOnIndices (D : Declarations) (functions : Functions σ) (ctx : MathContext)
    (e e' : TypedExpr) : Prop :=
  ∀ place, e.target? = some place → ∀ w, w.vars.Conform D →
    (evalIndices functions ctx e').result w = (evalIndices functions ctx e).result w

theorem AgreesOnIndices.of_none {e e' : TypedExpr} (h : e.target? = none) :
    AgreesOnIndices D functions ctx e e' := by
  intro place hplace
  rw [h] at hplace
  cases hplace

theorem agreesOnIndices_unary {tag : Tag (Option Ty)} {op : UnaryOp} {x x' : TypedExpr}
    (h : AgreesOnIndices D functions ctx x x') :
    AgreesOnIndices D functions ctx (.unary tag op x) (.unary tag op x') := by
  by_cases hop : op = .group
  · subst hop
    intro place hplace w hw
    rw [evalIndices_group, evalIndices_group]
    exact h place hplace w hw
  · exact .of_none (Expr.target?_unary hop)

theorem agreesOnIndices_array {tag : Tag (Option Ty)} {a a' i : TypedExpr}
    (h : AgreesOnIndices D functions ctx a a') :
    AgreesOnIndices D functions ctx (.element tag a i) (.element tag a' i) := by
  intro place hplace w hw
  rw [evalIndices_element, evalIndices_element]
  exact result_bind_congr (h a (Expr.target?_array hplace) w hw) fun _ _ _ => rfl

theorem agreesOnIndices_index (hfs : functions.Conform D) {tag : Tag (Option Ty)}
    {a i i' : TypedExpr} (ha : WellTyped D a) (h : Agrees D functions ctx i i') :
    AgreesOnIndices D functions ctx (.element tag a i) (.element tag a i') := by
  intro place hplace w hw
  obtain ⟨_, _, _, _, _, _, _, houter⟩ := ha.leadsToPlace hfs ctx a (Expr.target?_array hplace)
  rw [evalIndices_element, evalIndices_element]
  refine result_bind_congr rfl fun v w' hv => ?_
  exact result_bind_congr (h w' (houter.ok hw hv).2) fun _ _ _ => rfl

/-- Of the rewrites, only the one that drops parentheses has a target. -/
theorem Rewrite.agreesOnIndices {e e' : TypedExpr} (hr : Rewrite ctx e e') :
    AgreesOnIndices D functions ctx e e' := by
  cases hr with
  | group =>
    intro place hplace w hw
    rw [evalIndices_group]
  | unary hop => exact .of_none (Expr.target?_unary hop)
  | _ => exact .of_none rfl

/-! ## One step -/

/-- The value and, of a target, the indices: both are needed at once, since an element holds an
index that is evaluated. -/
theorem Step.agrees_of_plain (hfs : functions.Conform D) {e e' : TypedExpr}
    (hs : Step ctx e e') (h : WellTyped D e) (hp : e.Plain) :
    Agrees D functions ctx e e' ∧ AgreesOnIndices D functions ctx e e' := by
  induction hs with
  | root hr => exact ⟨hr.agrees hfs h hp, hr.agreesOnIndices⟩
  | @unary tag op x x' _ ih =>
    cases hp with
    | unary hpx =>
      have hx := h.operand
      obtain ⟨hagrees, hindices⟩ := ih hx hpx
      exact ⟨agrees_unary hagrees, agreesOnIndices_unary hindices⟩
  | left _ ih =>
    cases hp with
    | binary hpl _ =>
      cases h with
      | binary hl _ _ _ => exact ⟨agrees_left (ih hl hpl).1, .of_none rfl⟩
  | right _ ih =>
    cases hp with
    | binary _ hpr =>
      cases h with
      | binary hl hr _ _ => exact ⟨agrees_right hfs hl (ih hr hpr).1, .of_none rfl⟩
  | target | value | statement => cases hp
  | condition _ ih =>
    cases hp with
    | conditional hpc _ _ =>
      cases h with
      | conditional hc _ _ _ _ _ => exact ⟨agrees_condition (ih hc hpc).1, .of_none rfl⟩
  | onTrue _ ih =>
    cases hp with
    | conditional _ hpx _ =>
      cases h with
      | conditional hc hx _ _ _ _ =>
        exact ⟨agrees_branches hfs hc (ih hx hpx).1 fun _ _ => rfl, .of_none rfl⟩
  | onFalse _ ih =>
    cases hp with
    | conditional _ _ hpy =>
      cases h with
      | conditional hc _ hy _ _ _ =>
        exact ⟨agrees_branches hfs hc (fun _ _ => rfl) (ih hy hpy).1, .of_none rfl⟩
  | array _ ih =>
    cases hp with
    | element hpa _ =>
      cases h with
      | element ha _ _ _ =>
        obtain ⟨hagrees, hindices⟩ := ih ha hpa
        exact ⟨agrees_array hagrees, agreesOnIndices_array hindices⟩
  | index _ ih =>
    cases hp with
    | element _ hpi =>
      cases h with
      | element ha hi _ _ =>
        have hagrees := (ih hi hpi).1
        exact ⟨agrees_index hfs ha hagrees, agreesOnIndices_index hfs ha hagrees⟩
  | @argument tag f before after a a' hs ih =>
    cases hp with
    | call hpas =>
      cases h with
      | call has _ _ =>
        have ha : WellTyped D a := has a (by simp)
        have hbefore : ∀ x ∈ before, WellTyped D x := fun x hx => has x (List.mem_append_left _ hx)
        have hagrees := (ih ha (hpas a (by simp))).1
        exact ⟨agrees_argument hfs hbefore (hs.wellTyped ha).2 hagrees, .of_none rfl⟩

theorem Step.agrees_of_statement (hfs : functions.Conform D) {e e' : TypedExpr}
    (hs : Step ctx e e') (h : WellTyped D e) (hp : e.Statement) : Agrees D functions ctx e e' := by
  induction hp generalizing e' with
  | plain hp => exact (hs.agrees_of_plain hfs h hp).1
  | @assignment tag x v hpx hpv ih =>
    cases h with
    | @assignment _ _ _ place hx hv hplace _ _ =>
      obtain ⟨root, name, _, _, hroot, _, _, hindices⟩ := hx.leadsToPlace hfs ctx place hplace
      intro w hw
      cases hs with
      | root hr => cases hr
      | @target _ _ x' _ hs =>
        -- the rewritten target has the same variable at its root and the same type
        obtain ⟨place', hplace', hsame⟩ := hs.target? hplace
        have hagrees := (hs.agrees_of_plain hfs hx hpx).2 place hplace w hw
        rw [eval_assignment functions ctx tag hplace' (hsame.root?_eq.trans hroot),
          eval_assignment functions ctx tag hplace hroot, hpx.isAssignment,
          (hs.plain hpx).isAssignment, hsame.type_eq]
        exact result_bind_congr hagrees fun _ _ _ => rfl
      | value hs =>
        rw [eval_assignment functions ctx tag hplace hroot,
          eval_assignment functions ctx tag hplace hroot, hpx.isAssignment]
        refine result_bind_congr rfl fun is w' his => ?_
        have hw' := (hindices.ok hw his).2
        exact result_bind_congr (ih hs hv w' hw') fun _ _ _ => rfl

theorem Step.agrees_of_program (hfs : functions.Conform D) {e e' : TypedExpr}
    (hs : Step ctx e e') (h : WellTyped D e) (hp : e.Program) : Agrees D functions ctx e e' := by
  cases hp with
  | statement hp => exact hs.agrees_of_statement hfs h hp
  | @sequence tag ss hp =>
    cases h with
    | sequence hss _ hsingle =>
      cases hs with
      | root hr =>
        cases hr with
        | single =>
          -- the sequence casts the value of its statement to the type that the value has
          intro w hw
          have hs := hss _ List.mem_cons_self
          rw [eval_sequence, evalLast_cons, hsingle _ rfl]
          simp only [evalLast_nil, bind_pure]
          symm
          refine result_bind_eq_self fun v w' hv => ?_
          rw [((hs.keeps_eval hfs).ok hw hv).1.castTo_eq, result_pure]
      | @statement _ before after s s' hs =>
        intro w hw
        rw [eval_sequence, eval_sequence]
        have hbefore : ∀ x ∈ before, WellTyped D x := fun x hx => hss x (List.mem_append_left _ hx)
        have hagrees := hs.agrees_of_statement hfs (hss s (by simp)) (hp s (by simp))
        exact result_bind_congr (agrees_evalLast hfs hbefore hagrees hw) fun _ _ _ => rfl

/-! ## Many steps -/

/-- Programs stay well-typed programs, so that each step may start from what the last one left. -/
theorem Steps.agrees (hfs : functions.Conform D) {e e' : TypedExpr} (hs : Steps ctx e e')
    (h : WellTyped D e) (hp : e.Program) : Agrees D functions ctx e e' := by
  induction hs with
  | refl => exact fun _ _ => rfl
  | tail hsteps hstep ih =>
    intro w hw
    rw [hstep.agrees_of_program hfs (Steps.wellTyped hsteps h).1
      (Steps.program hsteps hp) w hw, ih w hw]

end TypedExpr

end ComputedField
