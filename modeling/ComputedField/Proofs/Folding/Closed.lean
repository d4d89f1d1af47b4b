import ComputedField.Proofs.Compilation
import ComputedField.Proofs.Folding.Rewrites
import Mathlib

/-!
# Folding closed formulas

A closed formula is made of literals by operators and conditionals. Evaluating it takes nothing from
the environment (`result_eval_of_isClosed`), and folding it does what evaluation does: it leaves the
literal of its value, or fails as evaluation does (`mirrors_of_isClosed`). The exception is a null
that a conditional should make a decimal: folding keeps the conditional and with it all that stands
around it (`compile_closed_widening`).
-/

set_option autoImplicit false

namespace ComputedField

/-- Made of literals by operators and conditionals alone. -/
def Expr.isClosed {α : Type} : Expr α → Bool
  | literal .. => true
  | unary _ _ x => x.isClosed
  | binary _ _ l r => l.isClosed && r.isClosed
  | conditional _ c x y => c.isClosed && x.isClosed && y.isClosed
  | _ => false

namespace TypedExpr

open Run

variable {ctx : MathContext} {tag : Tag (Option Ty)}

/-- How the evaluation of a closed expression ends, where there are no names. -/
def closedValue (ctx : MathContext) (e : TypedExpr) : Except EvalError Value :=
  ((Environment.empty (σ := Unit)).evaluate () ctx e).outcome

/-- Whether evaluation goes on with the right operand. -/
def reachesRight (op : BinaryOp) (left : Except EvalError Value) : Bool :=
  match op, left with
  | .connective c, .ok (.boolean b) => b != c.determining
  | _, .ok _ => true
  | _, .error _ => false

/-- The branch is null where the conditional is a decimal and the branch by itself an integer. -/
def isWidenedNull (ctx : MathContext) (type : Option Ty) (branch : TypedExpr) : Bool :=
  type == some .decimal && branch.type == some .integer &&
    match closedValue ctx branch with
    | .ok v => v.isNull
    | .error _ => false

/-- Evaluation comes to a conditional that takes such a branch. -/
def widensNull (ctx : MathContext) : TypedExpr → Bool
  | .unary _ _ x => widensNull ctx x
  | .binary _ op l r =>
    widensNull ctx l || (reachesRight op (closedValue ctx l) && widensNull ctx r)
  | .conditional tag c x y =>
    widensNull ctx c ||
      match closedValue ctx c with
      | .ok (.boolean true) => widensNull ctx x || isWidenedNull ctx tag.note x
      | .ok _ => widensNull ctx y || isWidenedNull ctx tag.note y
      | .error _ => false
  | _ => false

/-! ## Evaluation without an environment -/

/-- In every environment and from every world evaluation ends like this, and changes nothing. -/
def EvaluatesTo (ctx : MathContext) (e : TypedExpr) (r : Except EvalError Value) : Prop :=
  ∀ (σ : Type) (functions : Functions σ) (w : World σ),
    (eval functions ctx e).result w = (r, w)

/-- A run that changes nothing, followed by others that change nothing. -/
theorem result_bind_of_still {σ α β : Type} {m : Run σ α} {f : α → Run σ β}
    {r : Except EvalError α} {g : α → Except EvalError β} {w : World σ} (h : m.result w = (r, w))
    (hf : ∀ a, (f a).result w = (g a, w)) : (m >>= f).result w = (r >>= g, w) := by
  rw [result_bind, h]
  cases r with
  | ok a => exact hf a
  | error e => rfl

theorem result_located {σ α : Type} (pos : Position) (r : Except EvalFault α) (w : World σ) :
    (located pos r : Run σ α).result w = (pos.report r, w) := by
  cases r <;> rfl

section Nodes

variable {c x y l r : TypedExpr} {rc rx ry rl rr : Except EvalError Value}

theorem evaluatesTo_literal (v : Literal) :
    EvaluatesTo ctx (.literal tag v) (.ok (v.toValue.castTo tag.note)) :=
  fun _ _ _ => rfl

theorem EvaluatesTo.unary {op : UnaryOp} (hx : EvaluatesTo ctx x rx) :
    EvaluatesTo ctx (.unary tag op x) (do
      let v ← rx
      let v ← tag.token.pos.report (op.apply v)
      return v.castTo tag.note) := by
  intro σ functions w
  rw [eval_unary]
  refine result_bind_of_still (hx σ functions w) fun v => ?_
  exact result_bind_of_still (result_located ..) fun _ => rfl

theorem EvaluatesTo.binary {op : BinaryOp} (hop : op.propagatesNull = true)
    (hl : EvaluatesTo ctx l rl) (hr : EvaluatesTo ctx r rr) :
    EvaluatesTo ctx (.binary tag op l r) (do
      let left ← rl
      let right ← rr
      let v ← tag.token.pos.report (op.apply ctx left right)
      return v.castTo tag.note) := by
  intro σ functions w
  rw [eval_binary functions ctx tag hop]
  refine result_bind_of_still (hl σ functions w) fun left => ?_
  refine result_bind_of_still (hr σ functions w) fun right => ?_
  exact result_bind_of_still (result_located ..) fun _ => rfl

/-- What a connective comes to, once its left operand has come to `left`. -/
def rightValue (pos : Position) (c : Connective) (left : Option Bool)
    (right : Except EvalError Value) : Except EvalError Value :=
  if left = some c.determining then .ok (.boolean c.determining)
  else do
    let right ← right
    let right ← pos.report right.truth
    return .ofTruth (c.apply left right)

theorem EvaluatesTo.connective {c : Connective} (hl : EvaluatesTo ctx l rl)
    (hr : EvaluatesTo ctx r rr) :
    EvaluatesTo ctx (.binary tag (.connective c) l r) (do
      let left ← rl
      let left ← tag.token.pos.report left.truth
      let v ← rightValue tag.token.pos c left rr
      return v.castTo tag.note) := by
  intro σ functions w
  rw [eval_connective]
  refine result_bind_of_still (hl σ functions w) fun left => ?_
  refine result_bind_of_still (result_located ..) fun left => ?_
  refine result_bind_of_still ?_ fun _ => rfl
  unfold evalRight rightValue
  split
  · rfl
  · refine result_bind_of_still (hr σ functions w) fun right => ?_
    exact result_bind_of_still (result_located ..) fun _ => rfl

theorem EvaluatesTo.conditional (hc : EvaluatesTo ctx c rc) (hx : EvaluatesTo ctx x rx)
    (hy : EvaluatesTo ctx y ry) :
    EvaluatesTo ctx (.conditional tag c x y) (do
      let condition ← rc
      let condition ← tag.token.pos.report condition.truth
      let v ← (if condition = some true then rx else ry)
      return v.castTo tag.note) := by
  intro σ functions w
  rw [eval_conditional]
  refine result_bind_of_still (hc σ functions w) fun condition => ?_
  refine result_bind_of_still (result_located ..) fun condition => ?_
  refine result_bind_of_still ?_ fun _ => rfl
  unfold evalBranch
  split
  · exact hx σ functions w
  · exact hy σ functions w

end Nodes

theorem EvaluatesTo.closedValue_eq {e : TypedExpr} {r : Except EvalError Value}
    (h : EvaluatesTo ctx e r) : closedValue ctx e = r := by
  rw [closedValue, Environment.evaluate_eq, h]

/-- **A closed expression has its value from nowhere.** -/
theorem evaluatesTo_of_isClosed {e : TypedExpr} (h : e.isClosed = true) :
    EvaluatesTo ctx e (closedValue ctx e) := by
  suffices hex : ∃ r, EvaluatesTo ctx e r by
    obtain ⟨r, hr⟩ := hex
    rwa [hr.closedValue_eq]
  induction e using Expr.induct with
  | literal tag v => exact ⟨_, evaluatesTo_literal v⟩
  | unary tag op x ih =>
    obtain ⟨rx, hx⟩ := ih h
    exact ⟨_, hx.unary⟩
  | binary tag op l r ihl ihr =>
    obtain ⟨hl, hr⟩ := Bool.and_eq_true .. |>.mp h
    obtain ⟨rl, hl⟩ := ihl hl
    obtain ⟨rr, hr⟩ := ihr hr
    rcases op.propagatesNull_or_connective with hop | ⟨c, rfl⟩
    · exact ⟨_, hl.binary hop hr⟩
    · exact ⟨_, hl.connective hr⟩
  | conditional tag c x y ihc ihx ihy =>
    obtain ⟨hcx, hy⟩ := Bool.and_eq_true .. |>.mp h
    obtain ⟨hc, hx⟩ := Bool.and_eq_true .. |>.mp hcx
    obtain ⟨rc, hc⟩ := ihc hc
    obtain ⟨rx, hx⟩ := ihx hx
    obtain ⟨ry, hy⟩ := ihy hy
    exact ⟨_, hc.conditional hx hy⟩
  | var | assignment | element | call | sequence => cases h

/-! ## Folding as evaluating -/

/-- Folding ends as evaluation does: with a literal for the value, or with the failure. -/
inductive Mirrors : Except EvalError Value → Except EvalError TypedExpr → Prop where
  | literal (t : Tag (Option Ty)) (u : Literal) : Mirrors (.ok u.toValue) (.ok (.literal t u))
  | error (err : EvalError) : Mirrors (.error err) (.error err)

theorem Mirrors.bind {r : Except EvalError Value} {s : Except EvalError TypedExpr}
    {f : Value → Except EvalError Value} {g : TypedExpr → Except EvalError TypedExpr}
    (h : Mirrors r s)
    (hfg : ∀ t u, r = .ok u.toValue → s = .ok (.literal t u) →
      Mirrors (f u.toValue) (g (.literal t u))) : Mirrors (r >>= f) (s >>= g) := by
  cases h with
  | literal t u => exact hfg t u rfl rfl
  | error err => exact .error err

/-- A constant part is computed by the operator that evaluation uses. -/
theorem mirrors_constant {r : Except EvalFault Value} (hr : ∀ v, r = .ok v → v.kind ≠ .array)
    (node : TypedExpr) :
    Mirrors (tag.token.pos.report r >>= fun v => .ok (v.castTo tag.note))
      ((constant false tag r).outcome >>= fun folded => .ok (folded.getD node)) := by
  cases r with
  | error fault => exact .error _
  | ok v =>
    obtain ⟨u, hu⟩ := Value.exists_literal (hr v rfl) tag.note
    simp only [Position.report_ok, ok_bind, constant, hu, Traced.outcome_bind,
      Traced.outcome_report, Traced.outcome_pure, Option.getD_some]
    rw [← Literal.toValue_of_ofValue? hu]
    exact .literal tag u

/-- Folding an expression ends as evaluating it alone does. -/
def FoldMirrors (ctx : MathContext) (e : TypedExpr) : Prop :=
  Mirrors (closedValue ctx e) (foldIn ctx false e).outcome

variable {D : Declarations} {x c y l r : TypedExpr}

/-- What an expression folds to has its type. -/
theorem hasType_of_foldIn {e : TypedExpr} {t : Tag (Option Ty)} {u : Literal} (h : WellTyped D e)
    (hfold : (foldIn ctx false e).outcome = .ok (.literal t u)) :
    u.toValue.HasType e.type ∧ t.note = e.type := by
  obtain ⟨hliteral, htype⟩ := wellTyped_of_foldIn h hfold
  exact ⟨htype ▸ hasType_of_literal hliteral, htype⟩

theorem foldMirrors_unary {op : UnaryOp} (h : WellTyped D (.unary tag op x))
    (hx : x.isClosed = true) (ih : FoldMirrors ctx x) : FoldMirrors ctx (.unary tag op x) := by
  unfold FoldMirrors
  rw [(evaluatesTo_of_isClosed hx).unary.closedValue_eq, foldIn_unary, Traced.outcome_bind]
  refine ih.bind fun t u _ hfold => ?_
  by_cases hop : op = .group
  · subst hop
    have hnote : tag.note = x.type := by
      cases h with
      | group _ hnote => exact hnote
      | unary hne => exact absurd rfl hne
    rw [UnaryOp.apply_group, hnote, Position.report_ok, ok_bind,
      (hasType_of_foldIn h.operand hfold).1.castTo_eq]
    exact .literal t u
  · simp only [foldUnary, hop, if_false, Expr.literal?, Traced.outcome_bind]
    exact mirrors_constant (fun v hv => UnaryOp.kind_apply u.kind_toValue hv) _

theorem foldMirrors_binary {op : BinaryOp} (hop : op.propagatesNull = true)
    (hl : l.isClosed = true) (hr : r.isClosed = true) (ihl : FoldMirrors ctx l)
    (ihr : ∀ v, closedValue ctx l = .ok v → FoldMirrors ctx r) :
    FoldMirrors ctx (.binary tag op l r) := by
  unfold FoldMirrors
  rw [((evaluatesTo_of_isClosed hl).binary hop (evaluatesTo_of_isClosed hr)).closedValue_eq,
    foldIn_binary hop, Traced.outcome_bind]
  refine ihl.bind fun s v hv _ => ?_
  rw [Traced.outcome_bind]
  refine (ihr _ hv).bind fun t w _ _ => ?_
  simp only [foldBinary, Expr.literal?, Traced.outcome_bind]
  exact mirrors_constant (fun z hz => BinaryOp.kind_apply hz) _

theorem mirrors_truthLiteral {b : Option Bool} {token : Token} :
    Mirrors (.ok (.ofTruth b)) (.ok (truthLiteral b token)) := by
  cases b with
  | none => exact .literal _ .null
  | some b => exact .literal _ (.boolean b)

theorem mirrors_asBoolean (t : Tag (Option Ty)) (u : Literal) :
    Mirrors (.ok u.toValue) (.ok (asBoolean (.literal t u))) := by
  unfold asBoolean
  split
  · exact .literal _ u
  · exact .literal t u

theorem role?_of_truth {t : Tag (Option Ty)} {u : Literal} {b : Option Bool} (c : Connective)
    (h : u.toValue = .ofTruth b) :
    role? c (.literal t u) =
      match b with
      | some b => some (if b = c.determining then .determining else .neutral)
      | none => some .unknown := by
  rcases b with _ | b <;> cases u <;> cases h <;> rfl

theorem foldUnknownLeft_of_truth {s t : Tag (Option Ty)} {u v : Literal} {b : Option Bool}
    (c : Connective) (token : Token) (h : u.toValue = .ofTruth b) :
    foldUnknownLeft c token (.literal s v) (.literal t u) =
      truthLiteral (c.apply none b) token := by
  rcases b with _ | b
  · cases u <;> cases h
    cases c <;> rfl
  · cases u <;> cases h
    rfl

theorem foldMirrors_connective {c : Connective}
    (h : WellTyped D (.binary tag (.connective c) l r)) (hl : l.isClosed = true)
    (hr : r.isClosed = true) (ihl : FoldMirrors ctx l)
    (ihr : ∀ b, closedValue ctx l = .ok (.ofTruth b) → b ≠ some c.determining →
      FoldMirrors ctx r) :
    FoldMirrors ctx (.binary tag (.connective c) l r) := by
  obtain ⟨hlw, hrw, hlt, hrt, hnote⟩ := h.connective_inv
  unfold FoldMirrors
  rw [((evaluatesTo_of_isClosed hl).connective (evaluatesTo_of_isClosed hr)).closedValue_eq,
    foldIn_connective, Traced.outcome_bind]
  refine ihl.bind fun s u hu hfold => ?_
  obtain ⟨b, hb, htruth⟩ := (hasType_of_foldIn hlw hfold).1.truth hlt
  rw [htruth, Position.report_ok, ok_bind, hnote, foldRight, role?_of_truth c hb]
  rw [hb] at hu
  -- the right operand, and what the connective makes of it
  have hright (g : TypedExpr → Except EvalError TypedExpr) (hne : b ≠ some c.determining)
      (hg : ∀ t v b', v.toValue = .ofTruth b' →
        Mirrors (.ok (.ofTruth (c.apply b b'))) (g (.literal t v))) :
      Mirrors (rightValue tag.token.pos c b (closedValue ctx r) >>= fun v =>
          .ok (v.castTo (some .boolean))) ((foldIn ctx false r).outcome >>= g) := by
    rw [rightValue, if_neg hne, bind_assoc]
    refine (ihr b hu hne).bind fun t v _ hfold => ?_
    obtain ⟨b', hb', htruth'⟩ := (hasType_of_foldIn hrw hfold).1.truth hrt
    rw [htruth', Position.report_ok, ok_bind, pure_eq_ok, ok_bind, Value.castTo_ofTruth]
    exact hg t v b' hb'
  rcases b with _ | b
  · simp only [Traced.outcome_bind]
    refine hright _ (by simp) fun t v b' hb' => ?_
    rw [foldUnknownLeft_of_truth c tag.token hb']
    exact mirrors_truthLiteral
  · by_cases hdetermining : b = c.determining
    · subst hdetermining
      simp only [rightValue, if_true, ok_bind]
      exact mirrors_truthLiteral (b := some c.determining)
    · simp only [hdetermining, if_false, Traced.outcome_bind, Traced.outcome_report, ok_bind]
      refine hright _ (by simp [hdetermining]) fun t v b' hb' => ?_
      have hneutral : b = !c.determining := by
        cases b <;> cases hc : c.determining <;> simp [hc] at hdetermining ⊢
      rw [hneutral, c.apply_neutral_left, ← hb']
      exact mirrors_asBoolean t v

/-- A branch folds as the conditional evaluates it, unless it is a null to be widened. -/
theorem mirrors_branch {t : Option Ty} (h : WellTyped D x) (hwidens : Ty.Widens x.type t)
    (hnull : isWidenedNull ctx t x = false) (ih : FoldMirrors ctx x)
    (keep : TypedExpr → Folding TypedExpr) (pos : Position) :
    Mirrors (closedValue ctx x >>= fun v => .ok (v.castTo t))
      ((foldIn ctx false x).outcome >>= fun x' =>
        (match adapted? x' t with
          | some branch => do
            Traced.report (.branchTaken pos)
            return branch
          | none => keep x' : Folding TypedExpr).outcome) := by
  refine ih.bind fun s u hu hfold => ?_
  obtain ⟨hut, hs⟩ := hasType_of_foldIn h hfold
  cases hz : adapted? (.literal s u) t with
  | some z =>
    simp only [Traced.outcome_bind, Traced.outcome_report, ok_bind]
    have hwidens' : Ty.Widens (Expr.literal s u).type t := by
      show Ty.Widens s.note t
      rwa [hs]
    rcases eq_of_adapted? hwidens' hz with ⟨rfl, htype⟩ | ⟨n, hn, rfl, rfl⟩ | ⟨hnone, rfl⟩
    · have hself : x.type = t := hs.symm.trans htype
      rw [hself] at hut
      rw [hut.castTo_eq]
      exact .literal s u
    · cases hn
      exact .literal _ (.decimal _)
    · rw [hs.symm.trans hnone] at hut
      rw [hut.eq_null, Value.castTo_null, ← hut.eq_null]
      exact .literal _ u
  | none =>
    -- only an integer that is null is not widened at once
    obtain ⟨rfl, hinteger, hliteral⟩ := adapted?_eq_none hz
    have htype : x.type = some .integer := hs.symm.trans hinteger
    rw [htype] at hut
    cases u with
    | null => simp [isWidenedNull, htype, hu, Literal.toValue, Value.isNull] at hnull
    | integer n => exact absurd rfl (hliteral n)
    | boolean | decimal | string | date => cases hut

theorem takenBranch?_of_truth {t : Tag (Option Ty)} {u : Literal} {b : Option Bool}
    (h : u.toValue = .ofTruth b) :
    takenBranch? (.literal t u) = some (decide (b = some true)) := by
  rcases b with _ | _ | _ <;> cases u <;> cases h <;> rfl

theorem foldMirrors_conditional (h : WellTyped D (.conditional tag c x y))
    (hc : c.isClosed = true) (hx : x.isClosed = true) (hy : y.isClosed = true)
    (ihc : FoldMirrors ctx c)
    (ihx : closedValue ctx c = .ok (.boolean true) →
      FoldMirrors ctx x ∧ isWidenedNull ctx tag.note x = false)
    (ihy : ∀ v, closedValue ctx c = .ok v → v ≠ .boolean true →
      FoldMirrors ctx y ∧ isWidenedNull ctx tag.note y = false) :
    FoldMirrors ctx (.conditional tag c x y) := by
  cases h with
  | conditional hcw hxw hyw hct ht hnote =>
    obtain ⟨hxt, hyt⟩ := Ty.widens_of_branchType? ht
    unfold FoldMirrors
    rw [((evaluatesTo_of_isClosed hc).conditional (evaluatesTo_of_isClosed hx)
        (evaluatesTo_of_isClosed hy)).closedValue_eq, foldIn_conditional, Traced.outcome_bind]
    refine ihc.bind fun s u hu hfold => ?_
    obtain ⟨b, hb, htruth⟩ := (hasType_of_foldIn hcw hfold).1.truth hct
    rw [htruth, Position.report_ok, ok_bind, foldBranches, takenBranch?_of_truth hb]
    rw [hb] at hu
    by_cases htrue : b = some true
    · subst htrue
      obtain ⟨hxfold, hnull⟩ := ihx hu
      simp only [if_true, decide_true, Traced.outcome_bind]
      exact mirrors_branch hxw (hxt.trans_notedAs hnote) hnull hxfold _ _
    · have hne : Value.ofTruth b ≠ .boolean true := by
        rcases b with _ | _ | _ <;> simp [Value.ofTruth] at htrue ⊢
      obtain ⟨hyfold, hnull⟩ := ihy _ hu hne
      simp only [htrue, if_false, decide_false, Traced.outcome_bind]
      exact mirrors_branch hyw (hyt.trans_notedAs hnote) hnull hyfold _ _

/-- **A closed expression folds to its value.** -/
theorem foldMirrors_of_isClosed {e : TypedExpr} (h : WellTyped D e) (hclosed : e.isClosed = true)
    (hwidens : widensNull ctx e = false) : FoldMirrors ctx e := by
  induction e using Expr.induct with
  | literal tag v =>
    unfold FoldMirrors
    rw [(evaluatesTo_literal v).closedValue_eq, (hasType_of_literal h).castTo_eq, foldIn_literal]
    exact .literal tag v
  | unary tag op x ih => exact foldMirrors_unary h hclosed (ih h.operand hclosed hwidens)
  | binary tag op l r ihl ihr =>
    obtain ⟨hlw, hrw⟩ := h.operands
    obtain ⟨hl, hr⟩ := Bool.and_eq_true .. |>.mp hclosed
    obtain ⟨hlnull, hrnull⟩ := Bool.or_eq_false_iff.mp hwidens
    have ihr (hreaches : reachesRight op (closedValue ctx l) = true) : FoldMirrors ctx r := by
      rw [hreaches, Bool.true_and] at hrnull
      exact ihr hrw hr hrnull
    rcases op.propagatesNull_or_connective with hop | ⟨c, rfl⟩
    · refine foldMirrors_binary hop hl hr (ihl hlw hl hlnull) fun v hv => ihr ?_
      rw [hv]
      cases op with
      | connective => cases hop
      | arithmetic | concat | relation => rfl
    · refine foldMirrors_connective h hl hr (ihl hlw hl hlnull) fun b hb hne => ihr ?_
      rw [hb]
      rcases b with _ | b
      · rfl
      · show (b != c.determining) = true
        simpa using hne
  | conditional tag c x y ihc ihx ihy =>
    obtain ⟨hcw, hxw, hyw⟩ := h.condition_branches
    obtain ⟨hcx, hy⟩ := Bool.and_eq_true .. |>.mp hclosed
    obtain ⟨hc, hx⟩ := Bool.and_eq_true .. |>.mp hcx
    obtain ⟨hcnull, hbranch⟩ := Bool.or_eq_false_iff.mp hwidens
    refine foldMirrors_conditional h hc hx hy (ihc hcw hc hcnull) (fun htrue => ?_)
      fun v hv hne => ?_
    · rw [htrue] at hbranch
      obtain ⟨hxnull, hwidened⟩ := Bool.or_eq_false_iff.mp hbranch
      exact ⟨ihx hxw hx hxnull, hwidened⟩
    · rw [hv] at hbranch
      split at hbranch
      · rename_i htrue
        cases htrue
        exact absurd rfl hne
      · obtain ⟨hynull, hwidened⟩ := Bool.or_eq_false_iff.mp hbranch
        exact ⟨ihy hyw hy hynull, hwidened⟩
      · rename_i herror
        cases herror
  | var | assignment | element | call | sequence => cases hclosed

end TypedExpr

/-! ## Whole formulas -/

namespace Environment

variable {σ : Type}

/-- **Compiling a closed formula evaluates it.** Unless evaluation comes to a null that a
conditional should make a decimal, a closed formula compiles to the literal of its value, with the
type of the formula, and where its evaluation fails, compiling it fails with the same failure at the
same place. -/
theorem compile_closed {env : Environment σ} {ctx : MathContext} {expected : Option Ty}
    {text : String} {diagnose : Bool} {checked : TypedExpr}
    (hcompile : (compile env.declarations ⟨ctx, false, diagnose⟩ expected text).outcome =
      .ok checked)
    (hclosed : checked.isClosed = true) (hwidens : TypedExpr.widensNull ctx checked = false)
    (host : σ) :
    match (env.evaluate host ctx checked).outcome with
    | .ok v => ∃ token u,
        (compile env.declarations ⟨ctx, true, diagnose⟩ expected text).outcome =
          .ok (.literal ⟨token, checked.type⟩ u) ∧ u.toValue = v
    | .error failure =>
        (compile env.declarations ⟨ctx, true, diagnose⟩ expected text).outcome =
          .error (.folding failure) := by
  obtain ⟨hscan, ⟨e, hchecks, he⟩, hexpected⟩ := compile_eq_ok.mp hcompile
  cases he
  have hvalue : (env.evaluate host ctx checked).outcome = TypedExpr.closedValue ctx checked := by
    rw [evaluate_eq, TypedExpr.evaluatesTo_of_isClosed hclosed]
  have hmirrors : TypedExpr.FoldMirrors ctx checked :=
    TypedExpr.foldMirrors_of_isClosed hchecks.wellTyped hclosed hwidens
  have hfolds := @compile_of_checks env.declarations ⟨ctx, true, diagnose⟩ expected text checked
    hscan hchecks
  rw [hvalue, hfolds]
  unfold TypedExpr.FoldMirrors at hmirrors
  rw [TypedExpr.fold]
  generalize TypedExpr.closedValue ctx checked = r at hmirrors
  generalize hfold : (TypedExpr.foldIn ctx false checked).outcome = folded at hmirrors
  cases hmirrors with
  | literal t u =>
    have htype : t.note = checked.type := (TypedExpr.hasType_of_foldIn hchecks.wellTyped hfold).2
    refine ⟨t.token, u, ?_, rfl⟩
    rw [← htype]
    refine checkExpected_eq_ok.mpr ⟨rfl, fun t' u' ht' hu' => hexpected t' u' ht' ?_⟩
    rw [← htype]
    exact hu'
  | error err => rfl

/-- A null beside a connective, parentheses, and an integer that becomes a decimal. -/
theorem compile_closed_decimal :
    ∃ checked,
      (compile (standard (σ := Unit)).declarations ⟨.standard, false, true⟩ none
        "null || 2 ^ 3 > 1 ? -(1 + 2) * 2 : 0.5").outcome = .ok checked ∧
      checked.isClosed = true ∧ TypedExpr.widensNull .standard checked = false ∧
      ∃ token u,
        (compile (standard (σ := Unit)).declarations ⟨.standard, true, true⟩ none
          "null || 2 ^ 3 > 1 ? -(1 + 2) * 2 : 0.5").outcome =
            .ok (.literal ⟨token, checked.type⟩ u) ∧
        u.toValue = .decimal (Decimal.ofInt (-6)) := by
  obtain ⟨checked, hcompile, hclosed, hwidens, hvalue⟩ : ∃ checked,
      (compile (standard (σ := Unit)).declarations ⟨.standard, false, true⟩ none
        "null || 2 ^ 3 > 1 ? -(1 + 2) * 2 : 0.5").outcome = .ok checked ∧
      checked.isClosed = true ∧ TypedExpr.widensNull .standard checked = false ∧
      ((standard (σ := Unit)).evaluate () .standard checked).outcome =
        .ok (.decimal (Decimal.ofInt (-6))) :=
    ⟨_, by cbv, by cbv, by cbv, by cbv⟩
  have hfolded := compile_closed hcompile hclosed hwidens ()
  rw [hvalue] at hfolded
  exact ⟨checked, hcompile, hclosed, hwidens, hfolded⟩

/-- The sum is null and has to become a decimal: the formula evaluates to null and does not compile
to a literal. -/
theorem compile_closed_widening :
    ∃ checked kept,
      (compile (standard (σ := Unit)).declarations ⟨.standard, false, false⟩ none
        "true ? 1 + null : 2.5").outcome = .ok checked ∧
      checked.isClosed = true ∧ checked.type = some .decimal ∧
      ((standard (σ := Unit)).evaluate () .standard checked).outcome = .ok .null ∧
      (compile (standard (σ := Unit)).declarations ⟨.standard, true, false⟩ none
        "true ? 1 + null : 2.5").outcome = .ok kept ∧
      kept.literal? = none ∧ kept.text = "true ? null : 2.5" :=
  ⟨_, _, by cbv, by cbv, by cbv, by cbv, by cbv, by cbv, by cbv⟩

end Environment

end ComputedField
