import ComputedField.Proofs.Expr.Parts
import ComputedField.Proofs.Value.Matching

/-!
# Where the form of a decimal matters

Every decimal is written with fractional digits, so that one without them comes back as the same
number with another scale. Sums, differences, products, remainders and comparisons come to the same
number then. Powers and quotients count digits, and a function of the host may look at the scale.
`TypedExpr.steady kept exact e` says that in `e` these are given decimals that come back as they
were.
-/

set_option autoImplicit false

namespace ComputedField

/-- Literals that are read as the value that they were written for: a date is written as a call,
and a decimal without fractional digits with one. -/
def Literal.isReadBack : Literal → Bool
  | decimal d => decide (0 < d.scale)
  | date _ => false
  | _ => true

namespace TypedExpr

mutual

/-- The decimals of which the form matters are read back: those that powers, quotients and
functions are given, with `exact` those that the value of `e` is or holds, and those that are
stored in a variable that is `kept`. Only of these variables the form may be used. -/
def steady (kept : String → Bool) (exact : Bool) (e : TypedExpr) : Bool :=
  match e with
  | .literal _ v => !exact || v.isReadBack
  | .var _ name => !exact || kept name
  | .unary _ _ x => steady kept exact x
  | .binary _ op l r => steady kept (op.asksForm exact) l && steady kept (op.asksForm exact) r
  | .assignment tag x v =>
    steady kept false x &&
      steady kept (exact || (Expr.assignedName? (.assignment tag x v)).any kept) v
  | .conditional _ c x y => steady kept false c && (steady kept exact x && steady kept exact y)
  | .element _ a i => steady kept exact a && steady kept false i
  | .call _ _ as => allSteady kept true as
  | .sequence _ ss => allSteady kept exact ss
termination_by structural e

def allSteady (kept : String → Bool) (exact : Bool) (es : List TypedExpr) : Bool :=
  match es with
  | [] => true
  | e :: es => steady kept exact e && allSteady kept exact es
termination_by structural es

end

variable {kept : String → Bool} {exact : Bool} {tag : Tag (Option Ty)} {op : BinaryOp}
  {x v l r c y a i : TypedExpr} {name f : String} {es : List TypedExpr} {u : Literal}

theorem allSteady_eq (kept : String → Bool) (exact : Bool) (es : List TypedExpr) :
    allSteady kept exact es = es.all (steady kept exact) := by
  induction es with
  | nil => rfl
  | cons e es ih =>
    rw [List.all_cons, ← ih]
    rfl

theorem steady_literal : steady kept exact (.literal tag u) = true ↔
    (exact = true → u.isReadBack = true) := by
  change (!exact || u.isReadBack) = true ↔ _
  cases exact <;> simp

theorem steady_var : steady kept exact (.var tag name) = true ↔
    (exact = true → kept name = true) := by
  change (!exact || kept name) = true ↔ _
  cases exact <;> simp

theorem steady_binary : steady kept exact (.binary tag op l r) = true ↔
    steady kept (op.asksForm exact) l = true ∧ steady kept (op.asksForm exact) r = true :=
  Bool.and_eq_true_iff

/-- What is stored in a variable that is kept has to be exact. -/
theorem steady_assignment {place : TypedExpr} {root : Tag (Option Ty)}
    (hplace : x.target? = some place) (hroot : place.root? = some (root, name)) :
    steady kept exact (.assignment tag x v) = true ↔
      steady kept false x = true ∧ steady kept (exact || kept name) v = true := by
  have hname : Expr.assignedName? (.assignment tag x v) = some name := by
    rw [Expr.assignedName?, hplace, Option.bind_some, hroot]
    rfl
  refine Bool.and_eq_true_iff.trans ?_
  rw [hname]
  rfl

theorem steady_conditional : steady kept exact (.conditional tag c x y) = true ↔
    steady kept false c = true ∧ steady kept exact x = true ∧ steady kept exact y = true :=
  Bool.and_eq_true_iff.trans (and_congr_right' Bool.and_eq_true_iff)

theorem steady_element : steady kept exact (.element tag a i) = true ↔
    steady kept exact a = true ∧ steady kept false i = true :=
  Bool.and_eq_true_iff

theorem steady_call : steady kept exact (.call tag f es) = true ↔
    ∀ e ∈ es, steady kept true e = true := by
  change allSteady kept true es = true ↔ _
  rw [allSteady_eq, List.all_eq_true]

theorem steady_sequence : steady kept exact (.sequence tag es) = true ↔
    ∀ e ∈ es, steady kept exact e = true := by
  change allSteady kept exact es = true ↔ _
  rw [allSteady_eq, List.all_eq_true]

end TypedExpr

end ComputedField
