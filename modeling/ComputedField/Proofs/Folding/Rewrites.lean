import ComputedField.Proofs.Evaluation.Soundness
import ComputedField.Proofs.Folding.Preservation

/-!
# What a rewrite does to evaluation

A rewritten expression runs as the original does, from every world whose variables conform: to the
same value or the same failure, and to the same world with the same events (`Agrees`). Here this is
shown of each rewrite at the root of an expression (`Rewrite.agrees`).
-/

set_option autoImplicit false

namespace ComputedField

namespace TypedExpr

open Run

variable {σ : Type} {D : Declarations} {functions : Functions σ} {ctx : MathContext}

/-- From every conforming world `e'` runs as `e` does. -/
def Agrees (D : Declarations) (functions : Functions σ) (ctx : MathContext) (e e' : TypedExpr) :
    Prop :=
  ∀ w, w.vars.Conform D → (eval functions ctx e').result w = (eval functions ctx e).result w

/-! ## Values of literals and of nodes without a type -/

theorem eval_literal_of_hasType {t : Tag (Option Ty)} {v : Literal}
    (h : v.toValue.HasType t.note) :
    eval functions ctx (.literal t v) = pure v.toValue := by
  rw [eval_literal, h.castTo_eq]

theorem eval_truthLiteral (b : Option Bool) (token : Token) :
    eval functions ctx (truthLiteral b token) = pure (.ofTruth b) := by
  cases b with
  | none => exact eval_literal_of_hasType (.null _)
  | some b => exact eval_literal_of_hasType (.boolean b)

/-- Of a node, the note decides the last cast and nothing else. -/
theorem eval_withNote (functions : Functions σ) (ctx : MathContext) {e : TypedExpr}
    (h : e.Plain) :
    ∃ m : Run σ Value, ∀ note, eval functions ctx (e.withNote note) = do
      let v ← m
      return v.castTo note := by
  cases h with
  | literal tag v => exact ⟨pure v.toValue, fun note => eval_literal ..⟩
  | var tag name =>
    exact ⟨readVariable tag.token.pos name, fun note => eval_var functions ctx ⟨tag.token, note⟩ _⟩
  | @unary tag op x =>
    refine ⟨do let v ← eval functions ctx x; located tag.token.pos (op.apply v), fun note => ?_⟩
    simp only [bind_assoc]
    exact eval_unary functions ctx ⟨tag.token, note⟩ op x
  | @binary tag op l r =>
    rcases op.propagatesNull_or_connective with hop | ⟨c, rfl⟩
    · refine ⟨do
        let left ← eval functions ctx l
        let right ← eval functions ctx r
        located tag.token.pos (op.apply ctx left right), fun note => ?_⟩
      simp only [bind_assoc]
      exact eval_binary functions ctx ⟨tag.token, note⟩ hop l r
    · refine ⟨do
        let left ← eval functions ctx l
        let left ← located tag.token.pos left.truth
        evalRight functions ctx tag c left r, fun note => ?_⟩
      simp only [bind_assoc]
      exact eval_connective functions ctx ⟨tag.token, note⟩ c l r
  | @conditional tag c x y =>
    refine ⟨do
      let condition ← eval functions ctx c
      let condition ← located tag.token.pos condition.truth
      evalBranch functions ctx condition x y, fun note => ?_⟩
    simp only [bind_assoc]
    exact eval_conditional functions ctx ⟨tag.token, note⟩ c x y
  | @element tag a i =>
    refine ⟨do
      let array ← eval functions ctx a
      let index ← eval functions ctx i
      located tag.token.pos (array.element index), fun note => ?_⟩
    simp only [bind_assoc]
    exact eval_element functions ctx ⟨tag.token, note⟩ a i
  | @call tag f as =>
    refine ⟨do
      let arguments ← evalAll functions ctx as
      call functions tag.token.pos f (as.map Expr.type) arguments, fun note => ?_⟩
    simp only [bind_assoc]
    exact eval_call functions ctx ⟨tag.token, note⟩ f as

theorem castTo_none (v : Value) : v.castTo none = v := by
  cases v <;> simp [Value.castTo]

/-- Only null comes out of a node without a type, so that it may be noted with any. -/
theorem agrees_withNote (hfs : functions.Conform D) {e : TypedExpr} (h : WellTyped D e)
    (hp : e.Plain) (ht : e.type = none) (note : Option Ty) :
    Agrees D functions ctx e (e.withNote note) := by
  intro w hw
  obtain ⟨m, hm⟩ := eval_withNote functions ctx hp
  have hself : e.withNote none = e := by
    rw [← ht]
    cases e <;> rfl
  have heval := hm none
  rw [hself] at heval
  have hkeeps : Keeps D false (eval functions ctx e) (·.HasType e.type) := h.keeps_eval hfs
  rw [heval] at hkeeps ⊢
  rw [hm]
  refine result_bind_congr rfl fun v w' hv => ?_
  have hnone := (hkeeps.ok hw (result_bind_of_ok hv)).1
  rw [ht, castTo_none] at hnone
  rw [hnone.eq_null, Value.castTo_null, Value.castTo_null]

theorem agrees_asBoolean (hfs : functions.Conform D) {e : TypedExpr} (h : WellTyped D e)
    (hp : e.Plain) : Agrees D functions ctx e (asBoolean e) := by
  unfold asBoolean
  by_cases hnone : e.type = none
  · rw [if_pos hnone]
    exact agrees_withNote hfs h hp hnone _
  · rw [if_neg hnone]
    exact fun _ _ => rfl

/-- A branch that replaces a conditional casts its value as the conditional did. -/
theorem result_adapted? (hfs : functions.Conform D) {branch z : TypedExpr} {t : Option Ty}
    (h : WellTyped D branch) (hp : branch.Plain) (ht : Ty.Widens branch.type t)
    (hz : adapted? branch t = some z) {w : World σ} (hw : w.vars.Conform D) :
    (do let v ← eval functions ctx branch; return v.castTo t).result w =
      (eval functions ctx z).result w := by
  rcases eq_of_adapted? ht hz with ⟨rfl, htype⟩ | ⟨n, hn, rfl, rfl⟩ | ⟨hnone, rfl⟩
  · refine result_bind_eq_self fun v w' hv => ?_
    have hvt := ((h.keeps_eval hfs).ok hw hv).1
    rw [htype] at hvt
    rw [hvt.castTo_eq, result_pure]
  · obtain ⟨tag, rfl⟩ := eq_literal_of_literal? hn
    rw [eval_literal_of_hasType (hasType_of_literal h),
      eval_literal_of_hasType (t := ⟨_, some .decimal⟩) (v := .decimal _) (.decimal _), pure_bind]
    simp [Literal.toValue, Value.castTo]
  · rw [agrees_withNote hfs h hp hnone _ w hw]
    refine result_bind_eq_self fun v w' hv => ?_
    have hvt := ((h.keeps_eval hfs).ok hw hv).1
    rw [hnone] at hvt
    rw [hvt.eq_null, Value.castTo_null, result_pure]

/-! ## Each rewrite -/

/-- An operator over constants is computed ahead: the node yields what the operator gives. -/
theorem agrees_constant {e : TypedExpr} {tag : Tag (Option Ty)} {w : Value} {u : Literal}
    {t : Option Ty} (hw : w.HasType t) (hnote : Ty.NotedAs t tag.note)
    (hu : Literal.ofValue? (w.castTo tag.note) = some u)
    (he : eval functions ctx e = do
      let v ← located tag.token.pos (.ok w)
      return v.castTo tag.note) : Agrees D functions ctx e (.literal tag u) := by
  intro w₀ _
  rw [eval_literal_of_hasType (hasType_constant hw hnote hu), he,
    Literal.toValue_of_ofValue? hu, result_bind_of_ok (result_located_ok ..)]

/-- Once the left operand is known to be no determining one, the right operand decides. -/
theorem evalRight_of_ne {c : Connective} {tag : Tag (Option Ty)} {left : Option Bool}
    {r : TypedExpr} (h : left ≠ some c.determining) :
    evalRight functions ctx tag c left r = do
      let right ← eval functions ctx r
      let right ← located tag.token.pos right.truth
      return .ofTruth (c.apply left right) := by
  rw [evalRight, if_neg h]

/-- What is left of a connective once its left operand has come to `left`. -/
theorem evalRight_truthLiteral {c : Connective} {tag : Tag (Option Ty)} {left b : Option Bool}
    {r : TypedExpr} (hr : eval functions ctx r = pure (.ofTruth b)) :
    evalRight functions ctx tag c left r = pure (.ofTruth (c.apply left b)) := by
  by_cases h : left = some c.determining
  · have happly : c.apply left b = some c.determining := h ▸ c.apply_determining_left b
    rw [evalRight, if_pos h, happly]
    rfl
  · rw [evalRight_of_ne h, hr, pure_bind, Value.truth_ofTruth]
    rfl

theorem agrees_group (hfs : functions.Conform D) {tag : Tag (Option Ty)} {x : TypedExpr}
    (h : WellTyped D x) (hnote : tag.note = x.type) :
    Agrees D functions ctx (.unary tag .group x) x := by
  intro w hw
  rw [eval_unary]
  symm
  refine result_bind_eq_self fun v w' hv => ?_
  have hvt := ((h.keeps_eval hfs).ok hw hv).1
  rw [UnaryOp.apply_group, result_bind_of_ok (result_located_ok ..), hnote, hvt.castTo_eq,
    result_pure]

/-- A null operand makes the result null, and what is beside it is not missed. -/
theorem agrees_nullOperand (hfs : functions.Conform D) {tag : Tag (Option Ty)} {op : BinaryOp}
    {l r : TypedExpr} (hop : op.propagatesNull = true) (hl : WellTyped D l) (hr : WellTyped D r)
    (hnull : hasNullOperand l r = true) :
    Agrees D functions ctx (.binary tag op l r) (.literal tag .null) := by
  intro w hw
  have hnullLiteral : ∀ {e : TypedExpr}, e.isNullLiteral = true → e.isPure = true ∧
      ∀ {v : Value} {w w' : World σ}, (eval functions ctx e).result w = (.ok v, w') →
        v.isNull = true := by
    intro e he
    obtain ⟨t, rfl⟩ := eq_literal_of_literal? (by simpa [Expr.isNullLiteral] using he)
    refine ⟨rfl, ?_⟩
    intro v w w' hv
    rw [eval_literal, Literal.toValue, Value.castTo_null, result_pure] at hv
    cases hv
    rfl
  simp only [hasNullOperand, Bool.or_eq_true, Bool.and_eq_true] at hnull
  -- the constant is pure as well, so neither operand can fail or change anything
  have hpure : l.isPure = true ∧ r.isPure = true := by
    rcases hnull with ⟨hn, hp⟩ | ⟨hn, hp⟩
    · exact ⟨(hnullLiteral hn).1, hp⟩
    · exact ⟨hp, (hnullLiteral hn).1⟩
  have hleft : Keeps D true (eval functions ctx l) (·.HasType l.type) :=
    hl.keeps_eval_of_isPure hfs hpure.1
  have hright : Keeps D true (eval functions ctx r) (·.HasType r.type) :=
    hr.keeps_eval_of_isPure hfs hpure.2
  obtain ⟨a, ha, -⟩ := hleft.result_eq hw
  obtain ⟨b, hb, -⟩ := hright.result_eq hw
  have hoperand : a.isNull = true ∨ b.isNull = true := by
    rcases hnull with ⟨hn, -⟩ | ⟨hn, -⟩
    · exact .inl ((hnullLiteral hn).2 ha)
    · exact .inr ((hnullLiteral hn).2 hb)
  rw [eval_binary functions ctx tag hop, result_bind_of_ok ha, result_bind_of_ok hb,
    BinaryOp.apply_null hop hoperand, result_bind_of_ok (result_located_ok ..), eval_literal]
  rfl

/-- The value of an operand of a connective, and its truth. -/
theorem ofTruth_of_result (hfs : functions.Conform D) {e : TypedExpr} (h : WellTyped D e)
    (ht : Ty.booleanOrUnknown e.type = true) {w w' : World σ} (hw : w.vars.Conform D) {v : Value}
    (hv : (eval functions ctx e).result w = (.ok v, w')) :
    ∃ b, v = .ofTruth b ∧ v.truth = .ok b :=
  ((h.keeps_eval hfs).ok hw hv).1.truth ht

/-- A connective whose left operand is a constant. -/
theorem eval_connective_of_left {tag : Tag (Option Ty)} {c : Connective} {l r : TypedExpr}
    {b : Option Bool} (hl : eval functions ctx l = pure (.ofTruth b)) :
    eval functions ctx (.binary tag (.connective c) l r) = do
      let v ← evalRight functions ctx tag c b r
      return v.castTo tag.note := by
  rw [eval_connective, hl, pure_bind, Value.truth_ofTruth]
  rfl

/-- A connective over two constants. -/
theorem agrees_truthLiteral {tag : Tag (Option Ty)} {c : Connective} {l r : TypedExpr}
    {a b : Option Bool} (hnote : tag.note = some .boolean)
    (hl : eval functions ctx l = pure (.ofTruth a))
    (hr : evalRight functions ctx tag c a r = pure (.ofTruth b)) :
    Agrees D functions ctx (.binary tag (.connective c) l r) (truthLiteral b tag.token) := by
  intro w _
  rw [eval_connective_of_left hl, hr, pure_bind, hnote, Value.castTo_ofTruth, eval_truthLiteral]

theorem agrees_determiningRight (hfs : functions.Conform D) {tag t : Tag (Option Ty)}
    {c : Connective} {l : TypedExpr} (hnote : tag.note = some .boolean) (h : WellTyped D l)
    (ht : Ty.booleanOrUnknown l.type = true) (hp : l.isPure = true)
    (hr : eval functions ctx (.literal t (.boolean c.determining)) =
      pure (.ofTruth (some c.determining))) :
    Agrees D functions ctx (.binary tag (.connective c) l (.literal t (.boolean c.determining)))
      (truthLiteral (some c.determining) tag.token) := by
  intro w hw
  obtain ⟨v, hv, -⟩ := (h.keeps_eval_of_isPure hfs hp).result_eq hw
  obtain ⟨b, -, hb⟩ := ofTruth_of_result hfs h ht hw hv
  rw [eval_connective, result_bind_of_ok hv, hb, result_bind_of_ok (result_located_ok ..),
    evalRight_truthLiteral hr, pure_bind, hnote, Value.castTo_ofTruth, eval_truthLiteral,
    c.apply_determining_right]

theorem agrees_neutralRight (hfs : functions.Conform D) {tag t : Tag (Option Ty)}
    {c : Connective} {l : TypedExpr} (hnote : tag.note = some .boolean) (h : WellTyped D l)
    (hp : l.Plain) (ht : Ty.booleanOrUnknown l.type = true)
    (hr : eval functions ctx (.literal t (.boolean !c.determining)) =
      pure (.ofTruth (some !c.determining))) :
    Agrees D functions ctx (.binary tag (.connective c) l (.literal t (.boolean !c.determining)))
      (asBoolean l) := by
  intro w hw
  rw [agrees_asBoolean hfs h hp w hw, eval_connective]
  symm
  refine result_bind_eq_self fun v w' hv => ?_
  obtain ⟨b, rfl, hb⟩ := ofTruth_of_result hfs h ht hw hv
  rw [hb, result_bind_of_ok (result_located_ok ..), evalRight_truthLiteral hr, pure_bind, hnote,
    c.apply_neutral_right, Value.castTo_ofTruth, result_pure]

theorem agrees_neutralLeft (hfs : functions.Conform D) {tag : Tag (Option Ty)}
    {c : Connective} {l r : TypedExpr} (hnote : tag.note = some .boolean) (h : WellTyped D r)
    (hp : r.Plain) (ht : Ty.booleanOrUnknown r.type = true)
    (hl : eval functions ctx l = pure (.ofTruth (some !c.determining))) :
    Agrees D functions ctx (.binary tag (.connective c) l r) (asBoolean r) := by
  intro w hw
  have hne : some (!c.determining) ≠ some c.determining := by simp
  rw [agrees_asBoolean hfs h hp w hw, eval_connective_of_left hl, evalRight_of_ne hne]
  simp only [bind_assoc]
  symm
  refine result_bind_eq_self fun v w' hv => ?_
  obtain ⟨b, rfl, hb⟩ := ofTruth_of_result hfs h ht hw hv
  rw [hb, result_bind_of_ok (result_located_ok ..), pure_bind, hnote, c.apply_neutral_left,
    Value.castTo_ofTruth, result_pure]

/-- A connective with the notes that folding gives it. -/
theorem agrees_logicNode {tag : Tag (Option Ty)} {c : Connective} {l l' r r' : TypedExpr}
    (hnote : tag.note = some .boolean) (hl : eval functions ctx l' = eval functions ctx l)
    (hr : eval functions ctx r' = eval functions ctx r) :
    Agrees D functions ctx (.binary tag (.connective c) l r) (logicNode c tag.token l' r') := by
  intro w _
  rw [logicNode, eval_connective, eval_connective, hl, hnote]
  unfold evalRight
  rw [hr]

/-- A constant condition and the branch that it takes. -/
theorem truth_of_takenBranch? {t : Tag (Option Ty)} {v : Literal} {taken : Bool}
    (h : takenBranch? (.literal t v) = some taken) :
    ∃ b : Option Bool, v.toValue = .ofTruth b ∧ (b = some true ↔ taken = true) := by
  unfold takenBranch? at h
  split at h
  · rename_i b hb
    cases hb
    cases h
    exact ⟨some taken, rfl, by simp⟩
  · rename_i hnull
    cases hnull
    cases h
    exact ⟨none, rfl, by simp⟩
  · cases h

theorem Rewrite.agrees (hfs : functions.Conform D) {e e' : TypedExpr} (hr : Rewrite ctx e e')
    (h : WellTyped D e) (hp : e.Plain) : Agrees D functions ctx e e' := by
  have hconstant : ∀ {t : Tag (Option Ty)} {v : Literal}, WellTyped D (.literal t v) →
      eval functions ctx (.literal t v) = pure v.toValue :=
    fun h => eval_literal_of_hasType (hasType_of_literal h)
  cases hr with
  | group =>
    cases h with
    | group hx hnote => exact agrees_group hfs hx hnote
    | unary hop => exact absurd rfl hop
  | unary hop hw hu =>
    obtain ⟨_, hwt, hnote⟩ := h.hasType_of_unary hop hw
    refine agrees_constant hwt hnote hu ?_
    rw [eval_unary, hconstant h.operand, pure_bind, hw]
  | binary hop hz hu =>
    obtain ⟨_, hzt, hnote⟩ := h.hasType_of_binary hz
    refine agrees_constant hzt hnote hu ?_
    cases h with
    | binary hl hr _ _ =>
      rw [eval_binary functions ctx _ hop, hconstant hl, hconstant hr, pure_bind, pure_bind, hz]
  | nullOperand hop hnull =>
    cases h with
    | binary hl hr => exact agrees_nullOperand hfs hop hl hr hnull
  | @determiningLeft tag t c r =>
    obtain ⟨hl, -, -, -, hnote⟩ := h.connective_inv
    refine agrees_truthLiteral (a := some c.determining) hnote (hconstant hl) ?_
    rw [evalRight, if_pos rfl]
    rfl
  | neutralLeft =>
    obtain ⟨hl, hr, -, hrt, hnote⟩ := h.connective_inv
    cases hp with
    | binary _ hpr => exact agrees_neutralLeft hfs hnote hr hpr hrt (hconstant hl)
  | @unknownLeft tag s t c v b hv =>
    obtain ⟨hl, hr, -, -, hnote⟩ := h.connective_inv
    exact agrees_truthLiteral (a := none) hnote (hconstant hl)
      (evalRight_truthLiteral (hv ▸ hconstant hr))
  | determiningRight hpure =>
    obtain ⟨hl, hr, hlt, -, hnote⟩ := h.connective_inv
    exact agrees_determiningRight hfs hnote hl hlt hpure (hconstant hr)
  | neutralRight =>
    obtain ⟨hl, hr, hlt, -, hnote⟩ := h.connective_inv
    cases hp with
    | binary hpl _ => exact agrees_neutralRight hfs hnote hl hpl hlt (hconstant hr)
  | logic => exact agrees_logicNode h.connective_inv.2.2.2.2 rfl rfl
  | logicUnknownLeft =>
    obtain ⟨hl, -, -, -, hnote⟩ := h.connective_inv
    exact agrees_logicNode hnote ((eval_truthLiteral none _).trans (hconstant hl).symm) rfl
  | logicUnknownRight =>
    obtain ⟨-, hr, -, -, hnote⟩ := h.connective_inv
    exact agrees_logicNode hnote rfl ((eval_truthLiteral none _).trans (hconstant hr).symm)
  | @branch tag t v x y z taken htaken _ hz =>
    cases h with
    | conditional hc hx hy _ ht hnote =>
      cases hp with
      | conditional _ hpx hpy =>
        obtain ⟨hxt, hyt⟩ := Ty.widens_of_branchType? ht
        obtain ⟨b, hb, hbt⟩ := truth_of_takenBranch? htaken
        intro w hw
        rw [eval_conditional, hconstant hc, hb, pure_bind, Value.truth_ofTruth,
          result_bind_of_ok (result_located_ok ..), evalBranch]
        cases taken with
        | true =>
          rw [if_pos (hbt.mpr rfl)]
          exact (result_adapted? hfs hx hpx (hxt.trans_notedAs hnote) hz hw).symm
        | false =>
          rw [if_neg (fun h => by cases hbt.mp h)]
          exact (result_adapted? hfs hy hpy (hyt.trans_notedAs hnote) hz hw).symm
  | single => cases hp

end TypedExpr

end ComputedField
