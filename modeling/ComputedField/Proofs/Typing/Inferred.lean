import ComputedField.Proofs.Typing.Forgetting
import ComputedField.Proofs.Typing.WellTyped

/-!
# Types found again

An expression that has been folded can be noted with types that its words do not tell: the null
that stands for `null + 1` is noted as an integer. `TypedExpr.inferred` is the type that the rules
find from the words alone, and `TypedExpr.restorable` says that the difference is of no account:
wherever a type decides what is evaluated, the rules find enough of it again.
-/

set_option autoImplicit false

namespace ComputedField

namespace TypedExpr

mutual

/-- The type that the rules find for the expression as it is written. The types of variables, calls
and places are declared. -/
def inferred (e : TypedExpr) : Option Ty :=
  match e with
  | .literal _ v => v.type?
  | .var tag _ | .assignment tag _ _ | .call tag _ _ => tag.note
  | .unary _ op x => (op.resultType (inferred x)).toOption.join
  | .binary _ op l r =>
    (op.spoken.resultType (inferred l) (inferred r)).toOption.bind Prod.snd
  | .conditional _ _ x y => (Ty.branchType? (inferred x) (inferred y)).join
  | .element _ a _ => (inferred a).bind Ty.element?
  | .sequence _ ss => lastInferred none ss
termination_by structural e

/-- The type of the last of some statements; `last` if there are none. -/
def lastInferred (last : Option Ty) (ss : List TypedExpr) : Option Ty :=
  match ss with
  | [] => last
  | s :: ss => lastInferred (inferred s) ss
termination_by structural ss

end

mutual

/-- Types decide whether a power is an integer, to what the branches of a conditional widen, and
which function a call selects. There the rules have to find what they found before. A date is
written as a call, and is not found again as a literal. -/
def restorable (e : TypedExpr) : Bool :=
  match e with
  | .literal _ v => v.type? != some .date
  | .var .. => true
  | .unary _ _ x => restorable x
  | .binary _ op l r =>
    (op != .power ||
      Ty.powerResult (inferred l) (inferred r) == Ty.powerResult l.type r.type) &&
      (restorable l && restorable r)
  | .assignment _ x v => restorable x && restorable v
  | .conditional _ c x y =>
    Ty.branchType? (inferred x) (inferred y) == Ty.branchType? x.type y.type &&
      (restorable c && (restorable x && restorable y))
  | .element _ a i => restorable a && restorable i
  | .call _ _ as => as.map inferred == as.map Expr.type && allRestorable as
  | .sequence _ ss => allRestorable ss
termination_by structural e

def allRestorable (es : List TypedExpr) : Bool :=
  match es with
  | [] => true
  | e :: es => restorable e && allRestorable es
termination_by structural es

end

theorem lastInferred_eq (last : Option Ty) (ss : List TypedExpr) :
    lastInferred last ss = (ss.map inferred).getLast?.getD last := by
  induction ss generalizing last with
  | nil => rfl
  | cons s ss ih => rw [lastInferred, ih, List.map_cons, List.getLast?_cons, Option.getD_some]

theorem allRestorable_eq (es : List TypedExpr) : allRestorable es = es.all restorable := by
  induction es with
  | nil => rfl
  | cons e es ih =>
    rw [List.all_cons, ← ih]
    rfl

section Restorable

variable {tag : Tag (Option Ty)} {op : BinaryOp} {x v l r c y a i : TypedExpr} {f : String}
  {es : List TypedExpr}

theorem restorable_binary : restorable (.binary tag op l r) = true ↔
    (op = .power → Ty.powerResult (inferred l) (inferred r) = Ty.powerResult l.type r.type) ∧
      restorable l = true ∧ restorable r = true := by
  refine Bool.and_eq_true_iff.trans (and_congr ?_ Bool.and_eq_true_iff)
  simp [imp_iff_not_or]

theorem restorable_assignment : restorable (.assignment tag x v) = true ↔
    restorable x = true ∧ restorable v = true :=
  Bool.and_eq_true_iff

theorem restorable_conditional : restorable (.conditional tag c x y) = true ↔
    Ty.branchType? (inferred x) (inferred y) = Ty.branchType? x.type y.type ∧
      restorable c = true ∧ restorable x = true ∧ restorable y = true :=
  Bool.and_eq_true_iff.trans (and_congr beq_iff_eq
    (Bool.and_eq_true_iff.trans (and_congr_right' Bool.and_eq_true_iff)))

theorem restorable_element : restorable (.element tag a i) = true ↔
    restorable a = true ∧ restorable i = true :=
  Bool.and_eq_true_iff

theorem restorable_call : restorable (.call tag f es) = true ↔
    es.map inferred = es.map Expr.type ∧ ∀ e ∈ es, restorable e = true := by
  refine Bool.and_eq_true_iff.trans (and_congr beq_iff_eq ?_)
  rw [allRestorable_eq, List.all_eq_true]

theorem restorable_sequence : restorable (.sequence tag es) = true ↔
    ∀ e ∈ es, restorable e = true := by
  change allRestorable es = true ↔ _
  rw [allRestorable_eq, List.all_eq_true]

end Restorable

variable {D : Declarations}

/-- **Of the type of an expression the rules find what is left.** -/
theorem WellTyped.forgets {e : TypedExpr} (h : WellTyped D e) (hr : restorable e = true) :
    Ty.Forgets e.type (inferred e) := by
  induction h with
  | @literal tag v hv =>
    change Ty.Forgets tag.note v.type?
    exact Ty.Forgets.of_notedAs (.refl _) (Literal.notedAs_type? hv)
  | var | assignment | call => exact .refl _
  | group _ hnote ih =>
    rw [Expr.type, Expr.tag, hnote]
    exact ih hr
  | @unary tag op x t _ _ ht hnote ih =>
    obtain ⟨s, hs, hforgets⟩ := UnaryOp.resultType_of_forgets (ih hr) ht
    change Ty.Forgets tag.note (op.resultType (inferred x)).toOption.join
    rw [hs]
    exact hforgets.of_notedAs hnote
  | @binary tag op l r t _ _ ht hnote ihl ihr =>
    obtain ⟨hpower, hl, hr⟩ := restorable_binary.mp hr
    obtain ⟨chosen, s, hs, -, hforgets⟩ :=
      BinaryOp.resultType_of_forgets (ihl hl) (ihr hr) ht hpower
    change Ty.Forgets tag.note
      ((op.spoken.resultType (inferred l) (inferred r)).toOption.bind Prod.snd)
    rw [hs]
    exact hforgets.of_notedAs hnote
  | @conditional tag c x y t _ _ _ _ ht hnote =>
    obtain ⟨hbranches, -⟩ := restorable_conditional.mp hr
    change Ty.Forgets tag.note (Ty.branchType? (inferred x) (inferred y)).join
    rw [hbranches, ht]
    exact Ty.Forgets.of_notedAs (.refl t) hnote
  | @element tag a i t _ _ ht hnote iha ihi =>
    obtain ⟨ha, hi⟩ := restorable_element.mp hr
    exact (elementType_of_forgets (iha ha) (ihi hi) ht).2.of_notedAs hnote
  | @sequence tag ss _ hnote _ ih =>
    change Ty.Forgets tag.note (lastInferred none ss)
    refine Ty.Forgets.of_notedAs ?_ hnote
    rw [lastInferred_eq, lastType_eq, List.getLast?_map, List.getLast?_map]
    cases hlast : ss.getLast? with
    | none => exact .refl _
    | some s =>
      have hs := List.mem_of_getLast? hlast
      exact ih s hs (restorable_sequence.mp hr s hs)

end TypedExpr

end ComputedField
