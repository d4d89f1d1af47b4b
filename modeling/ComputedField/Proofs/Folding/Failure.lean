import ComputedField.Proofs.Folding.Agreement
import ComputedField.Proofs.Folding.Guarded
import ComputedField.Proofs.Typing.CheckShape
import Mathlib

/-!
# Where folding fails

Outside of guarded places folding fails only over a constant part that evaluation is bound to reach:
the formula then fails in every conforming environment (`evaluate_fails_of_fold`).
-/

set_option autoImplicit false

namespace ComputedField

/-! ## Runs that always fail -/

namespace Run

variable {σ α β : Type} {D : Declarations}

/-- From every conforming world the run fails. -/
def Fails (D : Declarations) (m : Run σ α) : Prop :=
  ∀ w, w.vars.Conform D → ∃ e w', m.result w = (.error e, w')

variable {m : Run σ α} {f : α → Run σ β} {quiet : Bool} {Q : α → Prop}

theorem Fails.bind (h : Fails D m) : Fails D (m >>= f) := by
  intro w hw
  obtain ⟨e, w', he⟩ := h w hw
  exact ⟨e, w', result_bind_of_error he⟩

/-- What comes after a run that may also fail itself. -/
theorem Keeps.fails_bind (h : Keeps D quiet m Q) (hf : ∀ a, Q a → Fails D (f a)) :
    Fails D (m >>= f) := by
  intro w hw
  cases hm : m.result w with
  | mk r w' =>
    cases r with
    | error e => exact ⟨e, w', result_bind_of_error hm⟩
    | ok a =>
      obtain ⟨ha, hw'⟩ := h.ok hw hm
      rw [result_bind_of_ok hm]
      exact hf a ha w' hw'

/-- A run that comes to one value, without a change of the world. -/
theorem fails_bind_of_const {a : α} (h : ∀ w, w.vars.Conform D → m.result w = (.ok a, w))
    (hf : Fails D (f a)) : Fails D (m >>= f) := by
  intro w hw
  rw [result_bind_of_ok (h w hw)]
  exact hf w hw

theorem fails_located {pos : Position} {fault : EvalFault} :
    Fails D (located pos (.error fault) : Run σ α) :=
  fun w _ => ⟨⟨pos, fault⟩, w, result_located_error ..⟩

end Run

namespace TypedExpr

open Run

variable {σ : Type} {D : Declarations} {functions : Functions σ} {ctx : MathContext}

/-! ## Places that evaluation reaches -/

/-- An expression that folds to a constant has its value, wherever it is evaluated. -/
theorem result_of_folds_to_literal (hfs : functions.Conform D) {e : TypedExpr}
    (h : WellTyped D e) (hp : e.Plain) {t : Tag (Option Ty)} {v : Literal}
    (hfold : (foldIn ctx false e).outcome = .ok (.literal t v)) :
    ∀ w : World σ, w.vars.Conform D → (eval functions ctx e).result w = (.ok v.toValue, w) := by
  intro w hw
  have hsteps := (foldsTo_of_foldIn hfold).steps
  have hv := hasType_of_literal (Steps.wellTyped hsteps h).1
  rw [← Steps.agrees hfs hsteps h (.statement (.plain hp)) w hw, eval_literal_of_hasType hv]
  rfl

theorem constant_eq_error {guarded : Bool} {tag : Tag (Option Ty)} {r : Except EvalFault Value}
    {err : EvalError} (h : (constant guarded tag r).outcome = .error err) :
    ∃ fault, r = .error fault := by
  cases r with
  | error fault => exact ⟨fault, rfl⟩
  | ok v =>
    cases hl : Literal.ofValue? (v.castTo tag.note) with
    | none => simp only [constant, hl] at h; cases h
    | some l => simp only [constant, hl] at h; cases h

theorem foldUnary_eq_error {tag : Tag (Option Ty)} {op : UnaryOp} {x : TypedExpr}
    {err : EvalError} (h : (foldUnary false tag op x).outcome = .error err) :
    op ≠ .group ∧ ∃ t v fault, x = .literal t v ∧ op.apply v.toValue = .error fault := by
  unfold foldUnary at h
  by_cases hop : op = .group
  · rw [if_pos hop] at h
    cases h
  · simp only [hop, if_false] at h
    cases hv : x.literal? with
    | none => rw [hv] at h; cases h
    | some v =>
      obtain ⟨t, rfl⟩ := eq_literal_of_literal? hv
      rw [hv] at h
      simp only [Traced.outcome_bind] at h
      rcases bind_eq_error.mp h with h | ⟨_, -, h⟩
      · obtain ⟨fault, hfault⟩ := constant_eq_error h
        exact ⟨hop, t, v, fault, rfl, hfault⟩
      · cases h

theorem foldBinary_eq_error {tag : Tag (Option Ty)} {op : BinaryOp} {l r : TypedExpr}
    {err : EvalError} (h : (foldBinary ctx false tag op l r).outcome = .error err) :
    ∃ s t v w fault, l = .literal s v ∧ r = .literal t w ∧
      op.apply ctx v.toValue w.toValue = .error fault := by
  unfold foldBinary at h
  split at h
  · rename_i v w hv hw
    obtain ⟨s, rfl⟩ := eq_literal_of_literal? hv
    obtain ⟨t, rfl⟩ := eq_literal_of_literal? hw
    simp only [Traced.outcome_bind] at h
    rcases bind_eq_error.mp h with h | ⟨_, -, h⟩
    · obtain ⟨fault, hfault⟩ := constant_eq_error h
      exact ⟨s, t, v, w, fault, rfl, rfl, hfault⟩
    · cases h
  · split at h
    · cases h
    · cases h

/-- If folding the expression fails, so does its evaluation. -/
def FailsWithFold (D : Declarations) (functions : Functions σ) (ctx : MathContext)
    (e : TypedExpr) : Prop :=
  ∀ err, (foldIn ctx false e).outcome = .error err → Fails D (eval functions ctx e)

/-- If folding a target fails, so do the indices that lead to its place. -/
def IndicesFailWithFold (D : Declarations) (functions : Functions σ) (ctx : MathContext)
    (e : TypedExpr) : Prop :=
  ∀ place, e.target? = some place → ∀ err, (foldIn ctx false e).outcome = .error err →
    Fails D (evalIndices functions ctx e)

theorem IndicesFailWithFold.of_none {e : TypedExpr} (h : e.target? = none) :
    IndicesFailWithFold D functions ctx e := by
  intro place hplace
  rw [h] at hplace
  cases hplace

/-! ## Node by node -/

variable {tag : Tag (Option Ty)}

theorem failsWithFold_unary (hfs : functions.Conform D) {op : UnaryOp} {x : TypedExpr}
    (h : WellTyped D x) (hp : x.Plain) (ih : FailsWithFold D functions ctx x) :
    FailsWithFold D functions ctx (.unary tag op x) := by
  intro err hfold
  rw [foldIn_unary, Traced.outcome_bind] at hfold
  rw [eval_unary]
  rcases bind_eq_error.mp hfold with hfold | ⟨x', hx, hfold⟩
  · exact (ih err hfold).bind
  · obtain ⟨-, t, v, fault, rfl, hfault⟩ := foldUnary_eq_error hfold
    refine fails_bind_of_const (result_of_folds_to_literal hfs h hp hx) ?_
    rw [hfault]
    exact fails_located.bind

theorem indicesFailWithFold_unary {op : UnaryOp} {x : TypedExpr}
    (ih : IndicesFailWithFold D functions ctx x) :
    IndicesFailWithFold D functions ctx (.unary tag op x) := by
  by_cases hop : op = .group
  · subst hop
    intro place hplace err hfold
    rw [foldIn_unary, Traced.outcome_bind] at hfold
    rw [evalIndices_group]
    rcases bind_eq_error.mp hfold with hfold | ⟨x', -, hfold⟩
    · exact ih place hplace err hfold
    · exact absurd rfl (foldUnary_eq_error hfold).1
  · exact .of_none (Expr.target?_unary hop)

theorem failsWithFold_binary (hfs : functions.Conform D) {op : BinaryOp} {l r : TypedExpr}
    (hop : op.propagatesNull = true) (hl : WellTyped D l) (hr : WellTyped D r) (hpl : l.Plain)
    (hpr : r.Plain) (ihl : FailsWithFold D functions ctx l)
    (ihr : FailsWithFold D functions ctx r) :
    FailsWithFold D functions ctx (.binary tag op l r) := by
  intro err hfold
  rw [foldIn_binary hop] at hfold
  simp only [Traced.outcome_bind] at hfold
  rw [eval_binary functions ctx tag hop]
  rcases bind_eq_error.mp hfold with hfold | ⟨l', hl', hfold⟩
  · exact (ihl err hfold).bind
  · rcases bind_eq_error.mp hfold with hfold | ⟨r', hr', hfold⟩
    · exact (hl.keeps_eval hfs).fails_bind fun _ _ => (ihr err hfold).bind
    · obtain ⟨s, t, v, w, fault, rfl, rfl, hfault⟩ := foldBinary_eq_error hfold
      refine fails_bind_of_const (result_of_folds_to_literal hfs hl hpl hl') ?_
      refine fails_bind_of_const (result_of_folds_to_literal hfs hr hpr hr') ?_
      rw [hfault]
      exact fails_located.bind

/-- Once the left operand has folded to a constant that does not decide, the right operand is
reached. -/
theorem fails_connective_of_right (hfs : functions.Conform D) {c : Connective} {l r : TypedExpr}
    (hl : WellTyped D l) (hpl : l.Plain) {t : Tag (Option Ty)} {v : Literal} {b : Option Bool}
    (hfold : (foldIn ctx false l).outcome = .ok (.literal t v)) (hv : v.toValue = .ofTruth b)
    (hb : b ≠ some c.determining) (hr : Fails D (eval functions ctx r)) :
    Fails D (eval functions ctx (.binary tag (.connective c) l r)) := by
  rw [eval_connective]
  refine fails_bind_of_const (result_of_folds_to_literal hfs hl hpl hfold) ?_
  rw [hv, Value.truth_ofTruth]
  refine fails_bind_of_const (fun _ _ => result_located_ok ..) ?_
  rw [evalRight_of_ne hb, bind_assoc]
  exact hr.bind

/-- Folding leaves the right operand unguarded only behind a constant that does not decide. -/
theorem failsWithFold_connective (hfs : functions.Conform D) {c : Connective} {l r : TypedExpr}
    (hl : WellTyped D l) (hpl : l.Plain) (ihl : FailsWithFold D functions ctx l)
    (ihr : FailsWithFold D functions ctx r) :
    FailsWithFold D functions ctx (.binary tag (.connective c) l r) := by
  intro err hfold
  rw [foldIn_connective, Traced.outcome_bind] at hfold
  rcases bind_eq_error.mp hfold with hfold | ⟨l', hl', hfold⟩
  · rw [eval_connective]
    exact (ihl err hfold).bind
  · unfold foldRight at hfold
    cases hrole : role? c l' with
    | none =>
      -- the right operand was guarded, and nothing else can have failed
      obtain ⟨r', hr'⟩ := foldIn_guarded ctx r
      obtain ⟨e', he'⟩ := foldByRight_ok c tag.token l' r'
      simp only [hrole, Traced.outcome_bind, hr', ok_bind, he'] at hfold
      cases hfold
    | some role =>
      obtain ⟨t, rfl⟩ := eq_literal_of_role? hrole
      cases role with
      | determining =>
        simp only [hrole] at hfold
        cases hfold
      | neutral =>
        simp only [hrole, Traced.outcome_bind, Traced.outcome_report, ok_bind] at hfold
        rcases bind_eq_error.mp hfold with hfold | ⟨_, -, hfold⟩
        · exact fails_connective_of_right (b := some !c.determining) hfs hl hpl hl' rfl (by simp)
            (ihr err hfold)
        · cases hfold
      | unknown =>
        simp only [hrole, Traced.outcome_bind] at hfold
        rcases bind_eq_error.mp hfold with hfold | ⟨_, -, hfold⟩
        · exact fails_connective_of_right (b := none) hfs hl hpl hl' rfl (by simp) (ihr err hfold)
        · cases hfold

/-- Once the condition has folded to a constant, the branch that it takes is reached. -/
theorem fails_conditional_of_branch (hfs : functions.Conform D) {c x y : TypedExpr}
    (hc : WellTyped D c) (hpc : c.Plain) {t : Tag (Option Ty)} {v : Literal} {b : Option Bool}
    (hfold : (foldIn ctx false c).outcome = .ok (.literal t v)) (hv : v.toValue = .ofTruth b)
    (hbranch : Fails D (evalBranch functions ctx b x y)) :
    Fails D (eval functions ctx (.conditional tag c x y)) := by
  rw [eval_conditional]
  refine fails_bind_of_const (result_of_folds_to_literal hfs hc hpc hfold) ?_
  rw [hv, Value.truth_ofTruth]
  exact fails_bind_of_const (fun _ _ => result_located_ok ..) hbranch.bind

/-- Folding leaves a branch unguarded only where a constant condition takes it. -/
theorem failsWithFold_conditional (hfs : functions.Conform D) {c x y : TypedExpr}
    (hc : WellTyped D c) (hpc : c.Plain) (ihc : FailsWithFold D functions ctx c)
    (ihx : FailsWithFold D functions ctx x) (ihy : FailsWithFold D functions ctx y) :
    FailsWithFold D functions ctx (.conditional tag c x y) := by
  intro err hfold
  obtain ⟨x', hx'⟩ := foldIn_guarded ctx x
  obtain ⟨y', hy'⟩ := foldIn_guarded ctx y
  rw [foldIn_conditional, Traced.outcome_bind] at hfold
  rcases bind_eq_error.mp hfold with hfold | ⟨c', hc', hfold⟩
  · rw [eval_conditional]
    exact (ihc err hfold).bind
  · unfold foldBranches at hfold
    cases htaken : takenBranch? c' with
    | none =>
      -- both branches were guarded
      simp only [htaken, Traced.outcome_bind, hx', hy', ok_bind] at hfold
      cases hfold
    | some taken =>
      obtain ⟨t, v, rfl⟩ := eq_literal_of_takenBranch? htaken
      obtain ⟨b, hb, hbt⟩ := truth_of_takenBranch? htaken
      cases taken with
      | true =>
        simp only [htaken, Traced.outcome_bind] at hfold
        rcases bind_eq_error.mp hfold with hfold | ⟨x'', -, hfold⟩
        · refine fails_conditional_of_branch hfs hc hpc hc' hb ?_
          rw [evalBranch, if_pos (hbt.mpr rfl)]
          exact ihx err hfold
        · -- the branch has folded, and the other one was guarded
          cases hz : adapted? x'' tag.note with
          | some z => simp only [hz] at hfold; cases hfold
          | none => simp only [hz, Traced.outcome_bind, hy', ok_bind] at hfold; cases hfold
      | false =>
        simp only [htaken, Traced.outcome_bind] at hfold
        rcases bind_eq_error.mp hfold with hfold | ⟨y'', -, hfold⟩
        · refine fails_conditional_of_branch hfs hc hpc hc' hb ?_
          rw [evalBranch, if_neg (fun h => by cases hbt.mp h)]
          exact ihy err hfold
        · cases hz : adapted? y'' tag.note with
          | some z => simp only [hz] at hfold; cases hfold
          | none => simp only [hz, Traced.outcome_bind, hx', ok_bind] at hfold; cases hfold

theorem failsWithFold_element (hfs : functions.Conform D) {a i : TypedExpr} (ha : WellTyped D a)
    (iha : FailsWithFold D functions ctx a) (ihi : FailsWithFold D functions ctx i) :
    FailsWithFold D functions ctx (.element tag a i) := by
  intro err hfold
  rw [foldIn_element] at hfold
  simp only [Traced.outcome_bind] at hfold
  rw [eval_element]
  rcases bind_eq_error.mp hfold with hfold | ⟨a', -, hfold⟩
  · exact (iha err hfold).bind
  · rcases bind_eq_error.mp hfold with hfold | ⟨i', -, hfold⟩
    · exact (ha.keeps_eval hfs).fails_bind fun _ _ => (ihi err hfold).bind
    · cases hfold

theorem indicesFailWithFold_element (hfs : functions.Conform D) {a i : TypedExpr}
    (ha : WellTyped D a) (iha : IndicesFailWithFold D functions ctx a)
    (ihi : FailsWithFold D functions ctx i) :
    IndicesFailWithFold D functions ctx (.element tag a i) := by
  intro place hplace err hfold
  rw [foldIn_element] at hfold
  simp only [Traced.outcome_bind] at hfold
  rw [evalIndices_element]
  have htarget := Expr.target?_array hplace
  rcases bind_eq_error.mp hfold with hfold | ⟨a', -, hfold⟩
  · exact (iha a htarget err hfold).bind
  · rcases bind_eq_error.mp hfold with hfold | ⟨i', -, hfold⟩
    · obtain ⟨_, _, _, _, _, _, _, houter⟩ := ha.leadsToPlace hfs ctx a htarget
      exact houter.fails_bind fun _ _ => (ihi err hfold).bind
    · cases hfold

theorem fails_evalAll (hfs : functions.Conform D) {es : List TypedExpr} {err : EvalError}
    (hes : ∀ e ∈ es, WellTyped D e) (ih : ∀ e ∈ es, FailsWithFold D functions ctx e)
    (hfold : (foldAllIn ctx false es).outcome = .error err) :
    Fails D (evalAll functions ctx es) := by
  induction es generalizing err with
  | nil =>
    rw [foldAllIn_nil] at hfold
    cases hfold
  | cons e es ihes =>
    rw [foldAllIn_cons] at hfold
    simp only [Traced.outcome_bind] at hfold
    rw [evalAll_cons]
    rcases bind_eq_error.mp hfold with hfold | ⟨_, -, hfold⟩
    · exact (ih e List.mem_cons_self err hfold).bind
    · rcases bind_eq_error.mp hfold with hfold | ⟨_, -, hfold⟩
      · have htail := ihes (fun x hx => hes x (List.mem_cons_of_mem e hx))
          (fun x hx => ih x (List.mem_cons_of_mem e hx)) hfold
        exact ((hes e List.mem_cons_self).keeps_eval hfs).fails_bind fun _ _ => htail.bind
      · cases hfold

theorem fails_evalLast (hfs : functions.Conform D) {ss : List TypedExpr} {err : EvalError}
    (hss : ∀ s ∈ ss, WellTyped D s) (ih : ∀ s ∈ ss, FailsWithFold D functions ctx s)
    (hfold : (foldAllIn ctx false ss).outcome = .error err) (last : Value) :
    Fails D (evalLast functions ctx last ss) := by
  induction ss generalizing err last with
  | nil =>
    rw [foldAllIn_nil] at hfold
    cases hfold
  | cons s ss ihss =>
    rw [foldAllIn_cons] at hfold
    simp only [Traced.outcome_bind] at hfold
    rw [evalLast_cons]
    rcases bind_eq_error.mp hfold with hfold | ⟨_, -, hfold⟩
    · exact (ih s List.mem_cons_self err hfold).bind
    · rcases bind_eq_error.mp hfold with hfold | ⟨_, -, hfold⟩
      · have htail := ihss (fun x hx => hss x (List.mem_cons_of_mem s hx))
          (fun x hx => ih x (List.mem_cons_of_mem s hx)) hfold
        exact ((hss s List.mem_cons_self).keeps_eval hfs).fails_bind fun v _ => htail v
      · cases hfold

/-! ## Every node -/

/-- The value and, of a target, the indices. -/
theorem failsWithFold_of_plain (hfs : functions.Conform D) {e : TypedExpr} (hp : e.Plain)
    (h : WellTyped D e) :
    FailsWithFold D functions ctx e ∧ IndicesFailWithFold D functions ctx e := by
  induction hp with
  | literal tag v =>
    refine ⟨?_, .of_none rfl⟩
    intro err hfold
    rw [foldIn_literal] at hfold
    cases hfold
  | var tag name =>
    refine ⟨?_, ?_⟩
    · intro err hfold
      rw [foldIn_var] at hfold
      cases hfold
    · intro place _ err hfold
      rw [foldIn_var] at hfold
      cases hfold
  | @unary tag op x hpx ih =>
    have hx := h.operand
    obtain ⟨hfails, hindices⟩ := ih hx
    exact ⟨failsWithFold_unary hfs hx hpx hfails, indicesFailWithFold_unary hindices⟩
  | @binary tag op l r hpl hpr ihl ihr =>
    refine ⟨?_, .of_none rfl⟩
    cases h with
    | binary hl hr _ _ =>
      rcases op.propagatesNull_or_connective with hop | ⟨c, rfl⟩
      · exact failsWithFold_binary hfs hop hl hr hpl hpr (ihl hl).1 (ihr hr).1
      · exact failsWithFold_connective hfs hl hpl (ihl hl).1 (ihr hr).1
  | conditional hpc _ _ ihc ihx ihy =>
    cases h with
    | conditional hc hx hy _ _ _ =>
      exact ⟨failsWithFold_conditional hfs hc hpc (ihc hc).1 (ihx hx).1 (ihy hy).1, .of_none rfl⟩
  | element _ _ iha ihi =>
    cases h with
    | element ha hi _ _ =>
      obtain ⟨hfails, hindices⟩ := iha ha
      exact ⟨failsWithFold_element hfs ha hfails (ihi hi).1,
        indicesFailWithFold_element hfs ha hindices (ihi hi).1⟩
  | @call tag f as _ ih =>
    refine ⟨?_, .of_none rfl⟩
    cases h with
    | call has _ _ =>
      intro err hfold
      rw [foldIn_call, Traced.outcome_bind] at hfold
      rw [eval_call]
      rcases bind_eq_error.mp hfold with hfold | ⟨_, -, hfold⟩
      · exact (fails_evalAll hfs has (fun a ha => (ih a ha (has a ha)).1) hfold).bind
      · cases hfold

theorem failsWithFold_of_statement (hfs : functions.Conform D) {e : TypedExpr}
    (hs : e.Statement) (h : WellTyped D e) : FailsWithFold D functions ctx e := by
  induction hs with
  | plain hp => exact (failsWithFold_of_plain hfs hp h).1
  | @assignment tag x v hpx _ ih =>
    intro err hfold
    cases h with
    | @assignment _ _ _ place hx hv hplace _ _ =>
      obtain ⟨root, name, _, _, hroot, _, _, hindices⟩ := hx.leadsToPlace hfs ctx place hplace
      rw [foldIn_assignment] at hfold
      simp only [Traced.outcome_bind] at hfold
      rw [eval_assignment functions ctx tag hplace hroot, hpx.isAssignment]
      rcases bind_eq_error.mp hfold with hfold | ⟨x', -, hfold⟩
      · exact ((failsWithFold_of_plain hfs hpx hx).2 place hplace err hfold).bind
      · rcases bind_eq_error.mp hfold with hfold | ⟨v', -, hfold⟩
        · exact hindices.fails_bind fun _ _ => (ih hv err hfold).bind
        · cases hfold

/-- **Folding fails only where evaluation does.** -/
theorem fails_of_fold (hfs : functions.Conform D) {e : TypedExpr} (hp : e.Program)
    (h : WellTyped D e) : FailsWithFold D functions ctx e := by
  cases hp with
  | statement hs => exact failsWithFold_of_statement hfs hs h
  | @sequence tag ss hss =>
    intro err hfold
    cases h with
    | sequence hwt _ _ =>
      rw [foldIn_sequence] at hfold
      rw [eval_sequence]
      rcases bind_eq_error.mp hfold with hfold | ⟨ss', -, hfold⟩
      · have hstatements : ∀ s ∈ ss, FailsWithFold D functions ctx s :=
          fun s hs => failsWithFold_of_statement hfs (hss s hs) (hwt s hs)
        exact (fails_evalLast hfs hwt hstatements hfold .null).bind
      · cases hfold

end TypedExpr

/-! ## Whole evaluations -/

namespace Environment

/-- **Folding rejects only formulas that can never be evaluated.** If folding a formula fails, its
evaluation fails in every conforming environment with these declarations, whatever the variables
hold and whatever the functions return. -/
theorem evaluate_fails_of_fold {D : Declarations} {text : String} {checked : TypedExpr}
    {ctx : MathContext} {err : EvalError} (hchecks : Checks D text checked)
    (hfold : (TypedExpr.fold ctx checked).outcome = .error err) {σ : Type} (env : Environment σ)
    (henv : env.Conforms) (hdeclarations : env.declarations = D) (host : σ) :
    ∃ failure, (env.evaluate host ctx checked).outcome = .error failure := by
  subst hdeclarations
  have hfails := TypedExpr.fails_of_fold henv.conform_functions hchecks.program hchecks.wellTyped
    err hfold
  obtain ⟨failure, w, hresult⟩ := hfails (env.world host) henv.vars
  exact ⟨failure, by rw [evaluate_eq, hresult]⟩

/-- A division by zero beside a variable, in a branch that is always taken. -/
theorem evaluate_fails_of_fold_division :
    ∃ checked err failure, Checks (standard.declare (σ := Unit) "x" .integer).declarations
        "true ? x + 1 / 0 : x" checked ∧
      (TypedExpr.fold .standard checked).outcome = .error err ∧
      ((standard.declare "x" .integer).evaluate () .standard checked).outcome = .error failure := by
  obtain ⟨checked, hchecked, err, hfold⟩ : ∃ checked,
      checkText? (standard.declare (σ := Unit) "x" .integer).declarations
        "true ? x + 1 / 0 : x" = some checked ∧
      ∃ err, (TypedExpr.fold .standard checked).outcome = .error err := by
    exact ⟨_, by cbv, _, by cbv⟩
  have hchecks := checks_iff.mpr hchecked
  obtain ⟨failure, hfailure⟩ := evaluate_fails_of_fold hchecks hfold _
    (conforms_standard.declare "x" .integer) rfl ()
  exact ⟨checked, err, failure, hchecks, hfold, hfailure⟩

end Environment

end ComputedField
