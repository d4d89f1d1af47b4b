import ComputedField.Proofs.Environment.Conforms
import ComputedField.Proofs.Evaluation.Nodes
import ComputedField.Proofs.Expr.Ungrouped
import ComputedField.Proofs.Folding.Nodes
import ComputedField.Proofs.Typing.CheckShape
import Mathlib

/-!
# Parentheses

Parentheses say how a text is to be read, and mean nothing once it has been read. The tree without
them (`Expr.ungrouped`) is accepted where the tree is, folds to the same and evaluates to the same
(`evaluate_ungrouped`).

There is one exception, which no text has. An assignment on the left of another one is run before
the place that it leads to is written; in parentheses it is only taken for its place
(`evaluate_hidden`).
-/

set_option autoImplicit false

namespace ComputedField

namespace TypedExpr

open ComputedField.Expr

variable {D : Declarations}

/-! ## Types -/

/-- Parentheses have the type of what they hold. -/
theorem WellTyped.type_ungrouped {e : TypedExpr} (h : WellTyped D e) :
    e.ungrouped.type = e.type := by
  induction e using Expr.induct with
  | unary tag op x ih =>
    cases op with
    | group =>
      cases h with
      | group hx hnote => exact (ih hx).trans hnote.symm
      | unary hop => exact absurd rfl hop
    | positive | negative | not => rfl
  | literal | var | binary | assignment | conditional | element | call | sequence => rfl

theorem map_type_ungrouped {es : List TypedExpr} (h : ∀ e ∈ es, WellTyped D e) :
    (es.map ungrouped).map Expr.type = es.map Expr.type := by
  rw [List.map_map]
  exact List.map_congr_left fun e he => (h e he).type_ungrouped

theorem lastType_ungrouped {ss : List TypedExpr} (h : ∀ s ∈ ss, WellTyped D s) :
    lastType (ss.map ungrouped) = lastType ss := by
  rw [lastType_eq, lastType_eq, map_type_ungrouped h]

/-! ## Evaluation -/

variable {σ : Type} {functions : Functions σ} {ctx : MathContext}

/-- Every node casts its value to its type in the end, so a cast to that type may follow. -/
theorem eval_bind_castTo (e : TypedExpr) :
    (do let v ← eval functions ctx e; return v.castTo e.type) = eval functions ctx e := by
  obtain ⟨m, hm⟩ : ∃ m : Run σ Value,
      eval functions ctx e = (do let v ← m; return v.castTo e.type) := by
    cases e <;> exact ⟨_, rfl⟩
  simp only [hm, bind_assoc, pure_bind, Value.castTo_castTo_self]

theorem eval_group {tag : Tag (Option Ty)} {x : TypedExpr} (hnote : tag.note = x.type) :
    eval functions ctx (.unary tag .group x) = eval functions ctx x := by
  rw [eval_unary, hnote]
  refine Eq.trans ?_ (eval_bind_castTo x)
  refine congrArg _ (funext fun v => ?_)
  rw [UnaryOp.apply_group]
  rfl

theorem evalAll_map_ungrouped {es : List TypedExpr}
    (h : ∀ e ∈ es, eval functions ctx e.ungrouped = eval functions ctx e) :
    evalAll functions ctx (es.map ungrouped) = evalAll functions ctx es := by
  induction es with
  | nil => rfl
  | cons e es ih =>
    obtain ⟨he, hes⟩ := List.forall_mem_cons.mp h
    rw [List.map_cons, evalAll_cons, evalAll_cons, he, ih hes]

theorem evalLast_map_ungrouped {ss : List TypedExpr}
    (h : ∀ s ∈ ss, eval functions ctx s.ungrouped = eval functions ctx s) (last : Value) :
    evalLast functions ctx last (ss.map ungrouped) = evalLast functions ctx last ss := by
  induction ss generalizing last with
  | nil => rfl
  | cons s ss ih =>
    obtain ⟨hs, hss⟩ := List.forall_mem_cons.mp h
    simp only [List.map_cons, evalLast_cons, hs, ih hss]

/-- **Evaluation looks through parentheses**, and so does the way to the place that is written,
unless an assignment in parentheses is assigned to. -/
theorem eval_ungrouped {e : TypedExpr} (hw : WellTyped D e)
    (hshown : ∀ n ∈ e.parts, n.assignsToGroup = false) :
    eval functions ctx e.ungrouped = eval functions ctx e ∧
      evalIndices functions ctx e.ungrouped = evalIndices functions ctx e := by
  induction e using Expr.induct with
  | literal | var => exact ⟨rfl, rfl⟩
  | unary tag op x ih =>
    obtain ⟨heval, hindices⟩ := ih hw.operand (forall_parts_child hshown (by simp [children]))
    cases op with
    | group =>
      cases hw with
      | group _ hnote => exact ⟨heval.trans (eval_group hnote).symm, hindices⟩
      | unary hop => exact absurd rfl hop
    | positive | negative | not =>
      refine ⟨?_, rfl⟩
      rw [ungrouped_unary tag (by simp), eval_unary, eval_unary, heval]
  | binary tag op l r ihl ihr =>
    obtain ⟨hlw, hrw⟩ := hw.operands
    have hl := (ihl hlw (forall_parts_child hshown (by simp [children]))).1
    have hr := (ihr hrw (forall_parts_child hshown (by simp [children]))).1
    refine ⟨?_, rfl⟩
    rw [ungrouped]
    rcases op.propagatesNull_or_connective with hop | ⟨c, rfl⟩
    · rw [eval_binary _ _ _ hop, eval_binary _ _ _ hop, hl, hr]
    · simp only [eval_connective, evalRight, hl, hr]
  | assignment tag x v ihx ihv =>
    obtain ⟨hxw, hvw⟩ := hw.target_value
    obtain ⟨hx, hxindices⟩ := ihx hxw (forall_parts_child hshown (by simp [children]))
    obtain ⟨hv, hvindices⟩ := ihv hvw (forall_parts_child hshown (by simp [children]))
    refine ⟨?_, hvindices⟩
    cases hw with
    | assignment _ _ hplace _ _ =>
      rename_i place
      obtain ⟨root, name, hroot⟩ := exists_root_of_target? hplace
      rw [ungrouped, eval_assignment _ _ _ hplace hroot,
        eval_assignment _ _ _ (target?_ungrouped hplace) (root?_ungrouped hroot),
        isAssignment_ungrouped (hshown _ (self_mem_parts _)),
        (hxw.target? hplace).1.type_ungrouped, hx, hxindices, hv]
  | conditional tag c x y ihc ihx ihy =>
    obtain ⟨hcw, hxw, hyw⟩ := hw.condition_branches
    have hc := (ihc hcw (forall_parts_child hshown (by simp [children]))).1
    have hx := (ihx hxw (forall_parts_child hshown (by simp [children]))).1
    have hy := (ihy hyw (forall_parts_child hshown (by simp [children]))).1
    refine ⟨?_, rfl⟩
    rw [ungrouped]
    simp only [eval_conditional, evalBranch, hc, hx, hy]
  | element tag a i iha ihi =>
    obtain ⟨haw, hiw⟩ := hw.array_index
    obtain ⟨ha, haindices⟩ := iha haw (forall_parts_child hshown (by simp [children]))
    have hi := (ihi hiw (forall_parts_child hshown (by simp [children]))).1
    rw [ungrouped]
    constructor
    · rw [eval_element, eval_element, ha, hi]
    · rw [evalIndices_element, evalIndices_element, haindices, hi]
  | call tag f as ih =>
    have has : ∀ a ∈ as, eval functions ctx a.ungrouped = eval functions ctx a := fun a ha =>
      (ih a ha (hw.arguments a ha) (forall_parts_child hshown ha)).1
    refine ⟨?_, rfl⟩
    rw [ungrouped_call, eval_call, eval_call, evalAll_map_ungrouped has,
      map_type_ungrouped hw.arguments]
  | sequence tag ss ih =>
    have hss : ∀ s ∈ ss, eval functions ctx s.ungrouped = eval functions ctx s := fun s hs =>
      (ih s hs (hw.statements s hs) (forall_parts_child hshown hs)).1
    refine ⟨?_, rfl⟩
    rw [ungrouped_sequence, eval_sequence, eval_sequence, evalLast_map_ungrouped hss]

/-! ## Folding -/

theorem foldAllIn_map_ungrouped {guarded : Bool} {es : List TypedExpr}
    (h : ∀ e ∈ es, ∀ guarded, foldIn ctx guarded e.ungrouped = foldIn ctx guarded e) :
    foldAllIn ctx guarded (es.map ungrouped) = foldAllIn ctx guarded es := by
  induction es with
  | nil => rfl
  | cons e es ih =>
    obtain ⟨he, hes⟩ := List.forall_mem_cons.mp h
    rw [List.map_cons, foldAllIn_cons, foldAllIn_cons, he guarded, ih hes]

/-- Folding a tree is folding it without its parentheses. -/
theorem foldIn_ungrouped (e : TypedExpr) (guarded : Bool) :
    foldIn ctx guarded e.ungrouped = foldIn ctx guarded e := by
  induction e using Expr.induct generalizing guarded with
  | literal | var => rfl
  | unary tag op x ih =>
    cases op with
    | group => exact (ih guarded).trans (bind_pure _).symm
    | positive | negative | not =>
      rw [ungrouped_unary tag (by simp), foldIn_unary, foldIn_unary, ih]
  | binary tag op l r ihl ihr =>
    rw [ungrouped]
    rcases op.propagatesNull_or_connective with hop | ⟨c, rfl⟩
    · rw [foldIn_binary hop, foldIn_binary hop, ihl, ihr]
    · simp only [foldIn_connective, foldRight, ihl, ihr]
  | assignment tag x v ihx ihv => rw [ungrouped, foldIn_assignment, foldIn_assignment, ihx, ihv]
  | conditional tag c x y ihc ihx ihy =>
    rw [ungrouped]
    simp only [foldIn_conditional, foldBranches, ihc, ihx, ihy]
  | element tag a i iha ihi => rw [ungrouped, foldIn_element, foldIn_element, iha, ihi]
  | call tag f as ih =>
    rw [ungrouped_call, foldIn_call, foldIn_call, foldAllIn_map_ungrouped ih]
  | sequence tag ss ih =>
    rw [ungrouped_sequence]
    show (foldAllIn ctx guarded (ss.map ungrouped) >>= _) = (foldAllIn ctx guarded ss >>= _)
    rw [foldAllIn_map_ungrouped ih]

end TypedExpr

/-! ## Checking -/

namespace RawExpr

open TypedExpr ComputedField.Expr

variable {D : Declarations}

theorem checkAll_map_ungrouped {es : List RawExpr} {ts : List TypedExpr}
    (h : checkAll D es = .ok ts)
    (hes : ∀ e ∈ es, ∀ {t}, check D e = .ok t → check D e.ungrouped = .ok t.ungrouped) :
    checkAll D (es.map ungrouped) = .ok (ts.map ungrouped) := by
  refine checkAll_of_forall₂ ?_
  rw [List.forall₂_map_left_iff, List.forall₂_map_right_iff]
  exact forall₂_of_checkAll_of_mem h hes

/-- **The checker looks through parentheses.** -/
theorem check_ungrouped {e : RawExpr} {t : TypedExpr} (h : check D e = .ok t) :
    check D e.ungrouped = .ok t.ungrouped := by
  induction e using Expr.induct generalizing t with
  | literal tag v =>
    obtain rfl := check_literal_eq_ok h
    exact h
  | var tag name =>
    obtain ⟨u, -, rfl⟩ := check_var_eq_ok h
    exact h
  | unary tag op x ih =>
    obtain ⟨x', type, hx, htype, rfl⟩ := check_unary_eq_ok h
    have hungrouped := ih hx
    cases op with
    | group => exact hungrouped
    | positive | negative | not =>
      rw [← (wellTyped_of_check hx).type_ungrouped] at htype
      exact check_unary_of hungrouped htype
  | binary tag op l r ihl ihr =>
    obtain ⟨l', r', chosen, type, hl, hr, htype, rfl⟩ := check_binary_eq_ok h
    refine check_binary_of (ihl hl) (ihr hr) ?_
    rw [(wellTyped_of_check hl).type_ungrouped, (wellTyped_of_check hr).type_ungrouped]
    exact htype
  | assignment tag x v ihx ihv =>
    obtain ⟨x', v', place, hx, hv, hplace, ha, rfl⟩ := check_assignment_eq_ok h
    have hplaceType := ((wellTyped_of_check hx).target? hplace).1.type_ungrouped
    rw [ungrouped, ungrouped, ← hplaceType]
    refine check_assignment_of (ihx hx) (ihv hv) (target?_ungrouped hplace) ?_
    rw [hplaceType, (wellTyped_of_check hv).type_ungrouped]
    exact ha
  | conditional tag c x y ihc ihx ihy =>
    obtain ⟨c', x', y', type, hc, hx, hy, hb, htype, rfl⟩ := check_conditional_eq_ok h
    refine check_conditional_of (ihc hc) (ihx hx) (ihy hy) ?_ ?_
    · rw [(wellTyped_of_check hc).type_ungrouped]
      exact hb
    · rw [(wellTyped_of_check hx).type_ungrouped, (wellTyped_of_check hy).type_ungrouped]
      exact htype
  | element tag a i iha ihi =>
    obtain ⟨a', i', type, ha, hi, htype, rfl⟩ := check_element_eq_ok h
    refine check_element_of (iha ha) (ihi hi) ?_
    rw [(wellTyped_of_check ha).type_ungrouped, (wellTyped_of_check hi).type_ungrouped]
    exact htype
  | call tag f as ih =>
    obtain ⟨as', u, has, hu, rfl⟩ := check_call_eq_ok h
    have hall : ∀ a ∈ as', WellTyped D a := forall_of_checkAll has fun _ _ => wellTyped_of_check
    rw [ungrouped_call, ungrouped_call]
    refine check_call_of (checkAll_map_ungrouped has ih) ?_
    rw [map_type_ungrouped hall]
    exact hu
  | sequence tag ss ih =>
    obtain ⟨ss', hss, rfl⟩ := check_sequence_eq_ok h
    have hall : ∀ s ∈ ss', WellTyped D s := forall_of_checkAll hss fun _ _ => wellTyped_of_check
    rw [ungrouped_sequence, ungrouped_sequence, ← lastType_ungrouped hall]
    exact check_sequence_of (checkAll_map_ungrouped hss ih)

end RawExpr

/-! ## Whole runs -/

namespace Environment

variable {σ : Type}

/-- **Parentheses are transparent.** Let a tree be accepted in which no assignment assigns to one in
parentheses. Without its parentheses it is accepted too, under the same types; evaluating it ends
with the same value or failure and leaves the same variables, the same host and the same events; and
folding makes the same of it. -/
theorem evaluate_ungrouped {D : Declarations} {tree : RawExpr} {checked : TypedExpr}
    (hcheck : RawExpr.check D tree = .ok checked)
    (hshown : ∀ n ∈ checked.parts, n.assignsToGroup = false) (env : Environment σ) (host : σ)
    (ctx : MathContext) :
    env.evaluate host ctx checked.ungrouped = env.evaluate host ctx checked ∧
      RawExpr.check D tree.ungrouped = .ok checked.ungrouped ∧
      TypedExpr.fold ctx checked.ungrouped = TypedExpr.fold ctx checked ∧
      ∀ n ∈ checked.ungrouped.parts, ∀ tag x, n ≠ .unary tag .group x := by
  have hw : TypedExpr.WellTyped D checked := RawExpr.wellTyped_of_check hcheck
  refine ⟨?_, RawExpr.check_ungrouped hcheck, TypedExpr.foldIn_ungrouped checked false, ?_⟩
  · exact evaluate_congr env host ctx
      (congrArg (Run.result · _) (TypedExpr.eval_ungrouped hw hshown).1)
  · intro n hn
    exact Expr.ne_group_of_mem_parts hn

/-- Elements and indices in parentheses, on the left of an assignment that is on the left of another
one. -/
theorem evaluate_ungrouped_chain :
    ∃ (env : Environment Unit) (tree : RawExpr) (checked : TypedExpr),
      env = ((empty.define "xs" (.array .integer 1) (.array [.integer 1, .integer 2])).define "i"
        .integer (.integer 1)).define "b" .integer (.integer 7) ∧
      tree = .assignment default
        (.assignment default
          (.unary default .group
            (.element default (.var default "xs") (.unary default .group (.var default "i"))))
          (.var default "b"))
        (.unary default .group (.literal default (.integer 5))) ∧
      RawExpr.check env.declarations tree = .ok checked ∧
      (∀ n ∈ checked.parts, n.assignsToGroup = false) ∧
      (env.evaluate () .standard checked.ungrouped).outcome = .ok (.integer 5) ∧
      (env.evaluate () .standard checked.ungrouped).environment.vars.find? "xs" =
        some ⟨.array .integer 1, .array [.integer 1, .integer 7]⟩ := by
  let env : Environment Unit :=
    ((empty.define "xs" (.array .integer 1) (.array [.integer 1, .integer 2])).define "i" .integer
      (.integer 1)).define "b" .integer (.integer 7)
  obtain ⟨checked, hcheck, hshown, houtcome, hxs⟩ : ∃ checked,
      RawExpr.check env.declarations (.assignment default
        (.assignment default
          (.unary default .group
            (.element default (.var default "xs") (.unary default .group (.var default "i"))))
          (.var default "b"))
        (.unary default .group (.literal default (.integer 5)))) = .ok checked ∧
      (checked.parts.all fun n => !n.assignsToGroup) = true ∧
      (env.evaluate () .standard checked).outcome = .ok (.integer 5) ∧
      (env.evaluate () .standard checked).environment.vars.find? "xs" =
        some ⟨.array .integer 1, .array [.integer 1, .integer 7]⟩ :=
    ⟨_, by cbv, by cbv, by cbv, by cbv⟩
  have hshown : ∀ n ∈ checked.parts, n.assignsToGroup = false := by simpa using hshown
  have hsame := (evaluate_ungrouped hcheck hshown env () .standard).1
  rw [← hsame] at houtcome hxs
  exact ⟨env, _, checked, rfl, rfl, hcheck, hshown, houtcome, hxs⟩

/-- An assignment in parentheses is only taken for the place `b` that it leads to, and `a` keeps its
value; without the parentheses it is run, and `a` gets that of `b`. -/
theorem evaluate_hidden :
    ∃ (env : Environment Unit) (tree : RawExpr) (checked : TypedExpr),
      env = (standard.define "a" .integer (.integer 1)).define "b" .integer (.integer 2) ∧
      tree = .assignment default
        (.unary default .group (.assignment default (.var default "a") (.var default "b")))
        (.literal default (.integer 5)) ∧
      env.Conforms ∧ RawExpr.check env.declarations tree = .ok checked ∧
      (env.evaluate () .standard checked).outcome = .ok (.integer 5) ∧
      (env.evaluate () .standard checked).environment.vars.find? "a" =
        some ⟨.integer, .integer 1⟩ ∧
      (env.evaluate () .standard checked.ungrouped).outcome = .ok (.integer 5) ∧
      (env.evaluate () .standard checked.ungrouped).environment.vars.find? "a" =
        some ⟨.integer, .integer 2⟩ := by
  let env : Environment Unit :=
    (standard.define "a" .integer (.integer 1)).define "b" .integer (.integer 2)
  have hconforms : env.Conforms :=
    (conforms_standard.define "a" ((Value.HasType.integer 1).castTo (.refl _))).define "b"
      ((Value.HasType.integer 2).castTo (.refl _))
  exact ⟨env, _, _, rfl, rfl, hconforms, by cbv, by cbv, by cbv, by cbv, by cbv⟩

/-- In what a text says parentheses are transparent without exception. -/
theorem evaluate_ungrouped_of_checks {D : Declarations} {text : String} {checked : TypedExpr}
    (h : Checks D text checked) (env : Environment σ) (host : σ) (ctx : MathContext) :
    env.evaluate host ctx checked.ungrouped = env.evaluate host ctx checked := by
  have hshown : ∀ n ∈ checked.parts, n.assignsToGroup = false := fun _ =>
    h.program.assignsToGroup
  exact evaluate_congr env host ctx
    (congrArg (Run.result · _) (TypedExpr.eval_ungrouped h.wellTyped hshown).1)

end Environment

end ComputedField
