import ComputedField.Proofs.Evaluation.Nodes
import ComputedField.Proofs.Expr.Parts

/-!
# Properties that the steps of an evaluation pass on

An evaluation is a sequence of steps: each node reports the outcome of an operation, reads a
variable, calls a function or writes a place. A property of runs that passes from the parts of a
sequence to the whole (`Run.Compositional`) holds of an evaluation if it holds of the own steps of
all nodes (`holds_eval`).
-/

set_option autoImplicit false

namespace ComputedField

namespace Run

variable {σ : Type}

/-- A sequence of runs has the property if all of its runs have it. -/
structure Compositional (R : (α : Type) → Run σ α → Prop) : Prop where
  pure : ∀ {α : Type} (a : α), R α (Pure.pure a)
  bind : ∀ {α β : Type} {m : Run σ α} {f : α → Run σ β}, R α m → (∀ a, R β (f a)) → R β (m >>= f)

theorem Compositional.cast {R : (α : Type) → Run σ α → Prop} (hR : Compositional R)
    {m : Run σ Value} (h : R Value m) (note : Option Ty) :
    R Value (do let v ← m; return v.castTo note) :=
  hR.bind h fun _ => hR.pure _

end Run

namespace TypedExpr

open Run ComputedField.Expr

variable {σ : Type} (R : (α : Type) → Run σ α → Prop) (functions : Functions σ)

/-- The property holds of what the node does itself. -/
structure OwnSteps (e : TypedExpr) : Prop where
  located : ∀ {α : Type} (r : Except EvalFault α), R α (Run.located e.pos r)
  read : ∀ name, e.variableName? = some name → R Value (Run.readVariable e.pos name)
  call : ∀ name types arguments, R Value (Run.call functions e.pos name types arguments)
  write : ∀ {tag root : Tag (Option Ty)} {x v place : TypedExpr} {name : String},
    e = .assignment tag x v → x.target? = some place → place.root? = some (root, name) →
    ∀ indices value, R Unit (Run.writePlace e.pos root.token.pos name indices value)

variable {R} (hR : Compositional R) (ctx : MathContext)

include hR

theorem holds_evalAll {es : List TypedExpr} (h : ∀ e ∈ es, R Value (eval functions ctx e)) :
    R (List Value) (evalAll functions ctx es) := by
  induction es with
  | nil =>
    rw [evalAll_nil]
    exact hR.pure []
  | cons e es ih =>
    obtain ⟨he, hes⟩ := List.forall_mem_cons.mp h
    rw [evalAll_cons]
    exact hR.bind he fun v => hR.bind (ih hes) fun vs => hR.pure (v :: vs)

theorem holds_evalLast {ss : List TypedExpr} (h : ∀ s ∈ ss, R Value (eval functions ctx s))
    (last : Value) : R Value (evalLast functions ctx last ss) := by
  induction ss generalizing last with
  | nil =>
    rw [evalLast_nil]
    exact hR.pure last
  | cons s ss ih =>
    obtain ⟨hs, hss⟩ := List.forall_mem_cons.mp h
    rw [evalLast_cons]
    exact hR.bind hs fun v => ih hss v

/-- One node, the nodes below it and the indices below them given. -/
theorem holds_node {e : TypedExpr} (h : OwnSteps R functions e)
    (ih : ∀ c ∈ e.children, R Value (eval functions ctx c))
    (ihIndices : ∀ c ∈ e.children, R (List Value) (evalIndices functions ctx c)) :
    R Value (eval functions ctx e) := by
  cases e with
  | literal tag v =>
    rw [eval_literal]
    exact hR.pure _
  | var tag name =>
    rw [eval_var]
    exact hR.cast (h.read name rfl) _
  | unary tag op x =>
    have hx := ih x (by simp [children])
    rw [eval_unary]
    exact hR.bind hx fun v => hR.cast (h.located _) _
  | binary tag op l r =>
    have hl := ih l (by simp [children])
    have hr := ih r (by simp [children])
    rcases op.propagatesNull_or_connective with hop | ⟨c, rfl⟩
    · rw [eval_binary functions ctx tag hop]
      exact hR.bind hl fun a => hR.bind hr fun b => hR.cast (h.located _) _
    · rw [eval_connective]
      refine hR.bind hl fun a => hR.bind (h.located _) fun b => hR.cast ?_ _
      unfold evalRight
      split
      · exact hR.pure _
      · exact hR.bind hr fun a => hR.bind (h.located _) fun b => hR.pure _
  | assignment tag x v =>
    have hx := ih x (by simp [children])
    have hindices := ihIndices x (by simp [children])
    have hv := ih v (by simp [children])
    cases hplace : x.target? with
    | none =>
      rw [eval_assignment_of_target?_eq_none functions ctx tag hplace]
      exact h.located (.error .illegalTarget)
    | some place =>
      obtain ⟨root, name, hroot⟩ := exists_root_of_target? hplace
      rw [eval_assignment functions ctx tag hplace hroot]
      have hwrite := hR.bind hindices fun indices => hR.bind hv fun value =>
        hR.bind (h.write rfl hplace hroot indices (value.castTo place.type)) fun _ =>
          hR.pure ((value.castTo place.type).castTo tag.note)
      cases x.isAssignment with
      | true => exact hR.bind (hR.bind hx fun _ => hR.pure ()) fun _ => hwrite
      | false => exact hwrite
  | conditional tag c x y =>
    have hc := ih c (by simp [children])
    have hx := ih x (by simp [children])
    have hy := ih y (by simp [children])
    rw [eval_conditional]
    refine hR.bind hc fun a => hR.bind (h.located _) fun b => hR.cast ?_ _
    unfold evalBranch
    split
    · exact hx
    · exact hy
  | element tag a i =>
    have ha := ih a (by simp [children])
    have hi := ih i (by simp [children])
    rw [eval_element]
    exact hR.bind ha fun a => hR.bind hi fun i => hR.cast (h.located _) _
  | call tag f as =>
    rw [eval_call]
    exact hR.bind (holds_evalAll functions hR ctx ih) fun vs => hR.cast (h.call f _ vs) _
  | sequence tag ss =>
    rw [eval_sequence]
    exact hR.cast (holds_evalLast functions hR ctx ih .null) _

theorem holds_indices {e : TypedExpr} (ih : ∀ c ∈ e.children, R Value (eval functions ctx c))
    (ihIndices : ∀ c ∈ e.children, R (List Value) (evalIndices functions ctx c)) :
    R (List Value) (evalIndices functions ctx e) := by
  cases e with
  | element tag a i =>
    have ha := ihIndices a (by simp [children])
    have hi := ih i (by simp [children])
    rw [evalIndices_element]
    exact hR.bind ha fun outer => hR.bind hi fun i => hR.pure _
  | unary tag op x =>
    cases op with
    | group => exact ihIndices x (by simp [children])
    | positive | negative | not => exact hR.pure []
  | assignment tag x v => exact ihIndices v (by simp [children])
  | literal | var | binary | conditional | call | sequence => exact hR.pure []

/-- **What holds of the steps of all nodes holds of the evaluation of the tree**, and of that of the
indices that lead to the place it writes. -/
theorem holds_eval {e : TypedExpr} (h : ∀ n ∈ e.parts, OwnSteps R functions n) :
    R Value (eval functions ctx e) ∧ R (List Value) (evalIndices functions ctx e) := by
  induction e using induct_children with
  | step e ih =>
    have hchild (c : TypedExpr) (hc : c ∈ e.children) := ih c hc fun n hn =>
      h n (parts_subset_of_child hc hn)
    have heval (c : TypedExpr) (hc : c ∈ e.children) := (hchild c hc).1
    have hindices (c : TypedExpr) (hc : c ∈ e.children) := (hchild c hc).2
    exact ⟨holds_node functions hR ctx (h e e.self_mem_parts) heval hindices,
      holds_indices functions hR ctx heval hindices⟩

end TypedExpr

end ComputedField
