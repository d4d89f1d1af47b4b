import ComputedField.Proofs.Evaluation.Session
import ComputedField.Proofs.Expr.Parts
import Mathlib

/-!
# Pure expressions

`isPure` is a test of the tree alone, and folding drops operands on the strength of it. Of a node
that checking or folding has typed it promises what it says (`evaluate_of_isPure`): the node has a
value in every environment whose variables hold values of their types, and coming to that value
changes nothing and calls nothing.

That a value comes out is type soundness. It asks all functions to keep to their return types; but a
pure expression comes to the same whatever the functions do (`eval_congr_of_isPure`), so that they
may be taken to be ones that return null.
-/

set_option autoImplicit false

namespace ComputedField

/-! ## Functions that do nothing -/

section Muted

variable {σ : Type}

/-- The function with its name and its types, and null for everything that it would return. -/
def Function.muted (f : Function σ) : Function σ := { f with body := fun _ host => (.null, host) }

def Functions.muted (fs : Functions σ) : Functions σ := ⟨fs.registered.map Function.muted⟩

theorem Function.conforms_muted (f : Function σ) : f.muted.Conforms := by
  intro arguments host _
  show (Value.null.castTo (some f.returns)).HasType (some f.returns)
  rw [Value.castTo_null]
  exact .null _

/-- A call selects by names and types, which stay. -/
theorem Functions.resolve?_muted (fs : Functions σ) (name : String) (types : List (Option Ty)) :
    fs.muted.resolve? name types = (fs.resolve? name types).map Function.muted := by
  have hoverloads : fs.muted.overloads name = (fs.overloads name).map Function.muted :=
    List.filter_map
  simp only [resolve?, hoverloads, List.find?_map, Option.map_or]
  rfl

theorem Functions.conform_muted {D : Declarations} {fs : Functions σ}
    (h : ∀ name types, (fs.resolve? name types).map Function.returns = D.returnType? name types) :
    fs.muted.Conform D := by
  refine ⟨fun name types => ?_, fun g hg => ?_⟩
  · rw [resolve?_muted, Option.map_map, ← h]
    rfl
  · obtain ⟨f, -, rfl⟩ := List.mem_map.mp hg
    exact f.conforms_muted

end Muted

namespace TypedExpr

open ComputedField.Expr

/-! ## What functions have to do with it -/

section Congr

variable {σ : Type} (functions functions' : Functions σ) (ctx : MathContext)

theorem evalLast_congr {ss : List TypedExpr}
    (h : ∀ s ∈ ss, eval functions' ctx s = eval functions ctx s) (last : Value) :
    evalLast functions' ctx last ss = evalLast functions ctx last ss := by
  induction ss generalizing last with
  | nil => rfl
  | cons s ss ih =>
    obtain ⟨hs, hss⟩ := List.forall_mem_cons.mp h
    simp only [evalLast_cons, hs, ih hss]

/-- **A pure expression calls no function**: whatever the functions are, it does the same. -/
theorem eval_congr_of_isPure {e : TypedExpr} (h : e.isPure = true) :
    eval functions' ctx e = eval functions ctx e := by
  induction e using Expr.induct with
  | literal | var => rfl
  | unary tag op x ih => rw [eval_unary, eval_unary, ih h]
  | binary tag op l r ihl ihr =>
    obtain ⟨h, hr⟩ := Bool.and_eq_true_iff.mp h
    obtain ⟨-, hl⟩ := Bool.and_eq_true_iff.mp h
    rcases op.propagatesNull_or_connective with hop | ⟨c, rfl⟩
    · rw [eval_binary _ _ _ hop, eval_binary _ _ _ hop, ihl hl, ihr hr]
    · simp only [eval_connective, evalRight, ihl hl, ihr hr]
  | conditional tag c x y ihc ihx ihy =>
    obtain ⟨h, hy⟩ := Bool.and_eq_true_iff.mp h
    obtain ⟨hc, hx⟩ := Bool.and_eq_true_iff.mp h
    simp only [eval_conditional, evalBranch, ihc hc, ihx hx, ihy hy]
  | element tag a i iha ihi =>
    obtain ⟨ha, hi⟩ := Bool.and_eq_true_iff.mp h
    rw [eval_element, eval_element, iha ha, ihi hi]
  | sequence tag ss ih =>
    have hss : ∀ s ∈ ss, s.isPure = true := isPure_of_mem h
    rw [eval_sequence, eval_sequence,
      evalLast_congr functions functions' ctx fun s hs => ih s hs (hss s hs)]
  | assignment | call => cases h

end Congr

/-! ## Nodes of well-typed trees -/

theorem WellTyped.children {D : Declarations} {e : TypedExpr} (h : WellTyped D e) :
    ∀ c ∈ e.children, WellTyped D c := by
  cases h with
  | literal | var => simp [Expr.children]
  | group hx | unary _ hx => simpa [Expr.children] using hx
  | binary hx hy | assignment hx hy | element hx hy => simpa [Expr.children] using ⟨hx, hy⟩
  | conditional hc hx hy => simpa [Expr.children] using ⟨hc, hx, hy⟩
  | call has | sequence has => exact has

theorem WellTyped.part {D : Declarations} {e n : TypedExpr} (h : WellTyped D e) (hn : n ∈ e.parts) :
    WellTyped D n :=
  forall_mem_parts (fun _ => WellTyped.children) h n hn

end TypedExpr

/-- A node that the typing of `D` has been at: one of a tree that the checker has accepted, or one of
what folding makes of such a node, wherever it takes it to stand. -/
inductive Occurs (D : Declarations) : TypedExpr → Prop where
  | checked {tree : RawExpr} {e n : TypedExpr} : RawExpr.check D tree = .ok e → n ∈ e.parts →
      Occurs D n
  | folded {ctx : MathContext} {guarded : Bool} {e e' n : TypedExpr} : Occurs D e →
      (TypedExpr.foldIn ctx guarded e).outcome = .ok e' → n ∈ e'.parts → Occurs D n

theorem Occurs.wellTyped {D : Declarations} {n : TypedExpr} (h : Occurs D n) :
    TypedExpr.WellTyped D n := by
  induction h with
  | checked hcheck hn => exact (RawExpr.wellTyped_of_check hcheck).part hn
  | folded _ hfold hn ih => exact (TypedExpr.wellTyped_of_foldIn ih hfold).1.part hn

namespace Environment

variable {σ : Type}

/-- **Pure expressions are pure.** Let a node occur in a tree that was accepted, before or after
folding, and let `isPure` hold of it. In every environment with these declarations whose variables
hold values of their types, whatever its functions do, the evaluation of the node succeeds with a
value of its static type. It leaves all variables and the host as they were and reports nothing but
this value, so no call; and where the variables are the same it comes to the same value, whatever
functions there are. -/
theorem evaluate_of_isPure {env : Environment σ}
    (hvalues : ∀ name v, env.vars.find? name = some v → v.value.HasType (some v.type))
    {n : TypedExpr} (hn : Occurs env.declarations n) (hpure : n.isPure = true) (host : σ)
    (ctx : MathContext) :
    ∃ v, env.evaluate host ctx n = ⟨.ok v, env, host, [.evaluated v]⟩ ∧ v.HasType n.type ∧
      ∀ env' : Environment σ, env'.vars = env.vars →
        env'.evaluate host ctx n = ⟨.ok v, env', host, [.evaluated v]⟩ := by
  have hmuted : env.functions.muted.Conform env.declarations :=
    Functions.conform_muted fun _ _ => rfl
  have hvars : (env.world host).vars.Conform env.declarations := ⟨fun _ => rfl, hvalues⟩
  have hkeeps : Run.Keeps env.declarations true
      (TypedExpr.eval env.functions.muted ctx n) (·.HasType n.type) :=
    hn.wellTyped.keeps_eval_of_isPure hmuted hpure
  obtain ⟨v, hv, htype⟩ := hkeeps.result_eq hvars
  have hall (env' : Environment σ) (hsame : env'.vars = env.vars) :
      env'.evaluate host ctx n = ⟨.ok v, env', host, [.evaluated v]⟩ := by
    have hworld : env'.world host = env.world host := by rw [world, world, hsame]
    have hresult : (TypedExpr.eval env'.functions ctx n).result (env'.world host) =
        (.ok v, env'.world host) := by
      rw [TypedExpr.eval_congr_of_isPure env.functions.muted env'.functions ctx hpure, hworld]
      exact hv
    exact evaluate_of_ok hresult
  exact ⟨v, hall env rfl, htype, hall⟩

/-- The left operand of a folded quotient, beside a function that breaks the promise of its type. -/
theorem evaluate_of_isPure_operand :
    ∃ (env : Environment Unit) (checked folded n : TypedExpr) (v : Value),
      checkText? env.declarations "(xs[0] + (1 + 1)) / f()" = some checked ∧
      (TypedExpr.fold .standard checked).outcome = .ok folded ∧ n ∈ folded.parts ∧
      folded.isPure = false ∧ n.isPure = true ∧
      env.evaluate () .standard n = ⟨.ok v, env, (), [.evaluated v]⟩ := by
  let env : Environment Unit :=
    (standard.define "xs" (.array .integer 1) (.array [.integer 40])).register
      ⟨"f", [], .integer, fun _ host => (.string "none", host)⟩
  obtain ⟨checked, hchecked, folded, hfolded, n, hn, hroot, hpure⟩ : ∃ checked,
      checkText? env.declarations "(xs[0] + (1 + 1)) / f()" = some checked ∧
      ∃ folded, (TypedExpr.fold .standard checked).outcome = .ok folded ∧
      ∃ n, folded.children.head? = some n ∧ folded.isPure = false ∧ n.isPure = true :=
    ⟨_, by cbv, _, by cbv, _, by cbv, by cbv, by cbv⟩
  have hmem : n ∈ folded.parts :=
    Expr.parts_subset_of_child (List.mem_of_mem_head? hn) n.self_mem_parts
  obtain ⟨tree, -, hcheck⟩ := checks_iff.mpr hchecked
  have hitems : ∀ v ∈ [Value.integer 40], v.HasType (some .integer) := by
    simpa using Value.HasType.integer 40
  have hxs : (Value.array [.integer 40]).HasType (some (.array .integer 1)) := .array hitems
  have hvalues : ∀ name v, env.vars.find? name = some v → v.value.HasType (some v.type) :=
    (conforms_standard.define "xs" (hxs.castTo (.refl _))).values
  obtain ⟨v, hv, -⟩ := evaluate_of_isPure hvalues
    (.folded (.checked hcheck checked.self_mem_parts) hfolded hmem) hpure () .standard
  exact ⟨env, checked, folded, n, v, hchecked, hfolded, hmem, hroot, hpure, hv⟩

end Environment

end ComputedField
