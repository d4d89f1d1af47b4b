import ComputedField.Proofs.Expr.SameShape
import ComputedField.Proofs.Expr.Written

/-!
# Normal forms

What a tree and its text have in common. Parentheses are left out, a negative number is the sign
before its absolute value, concatenation is addition, and a date is the call that makes it. The
words of a tree say a tree of the same normal form (`normal_written`).
-/

set_option autoImplicit false

namespace ComputedField

/-- Negative numbers have their sign before them, and dates are made by a call. -/
def Literal.normal : Literal → RawExpr
  | integer n => RawExpr.signedInteger n
  | decimal d => RawExpr.signed d.isNegative (.decimal ⟨d.unscaled.natAbs, d.scale⟩)
  | date d => RawExpr.dateCall d
  | v => .literal default v

namespace Expr

variable {α : Type}

mutual

/-- The tree without parentheses, and in one of the forms that have the same spelling. -/
def normal : Expr α → RawExpr
  | literal _ v => v.normal
  | var _ x => .var default x
  | unary _ op x => if op = .group then x.normal else .unary default op x.normal
  | binary _ op l r => .binary default op.spoken l.normal r.normal
  | assignment _ x v => .assignment default x.normal v.normal
  | conditional _ c x y => .conditional default c.normal x.normal y.normal
  | element _ a i => .element default a.normal i.normal
  | call _ f as => .call default f (normalAll as)
  | sequence _ ss => .sequence default (normalAll ss)

def normalAll : List (Expr α) → List RawExpr
  | [] => []
  | e :: es => e.normal :: normalAll es

end

theorem normalAll_eq_map (es : List (Expr α)) : normalAll es = es.map normal := by
  induction es with
  | nil => rfl
  | cons e es ih =>
    rw [List.map_cons, ← ih]
    rfl

/-- Tokens and notes have no part in the normal form. -/
theorem normal_bare (e : Expr α) : e.bare.normal = e.normal := by
  have hlist {es : List (Expr α)} (ih : ∀ e ∈ es, e.bare.normal = e.normal) :
      normalAll (es.map bare) = normalAll es := by
    rw [normalAll_eq_map, normalAll_eq_map, List.map_map]
    exact List.map_congr_left ih
  induction e using Expr.induct with
  | literal | var => rfl
  | unary tag op x ih =>
    change (if op = .group then x.bare.normal else .unary default op x.bare.normal) = _
    rw [ih]
    rfl
  | binary tag op l r ihl ihr => exact congrArg₂ (binary default op.spoken) ihl ihr
  | assignment tag x v ihx ihv => exact congrArg₂ (assignment default) ihx ihv
  | conditional tag c x y ihc ihx ihy =>
    change conditional default c.bare.normal x.bare.normal y.bare.normal = _
    rw [ihc, ihx, ihy]
    rfl
  | element tag a i iha ihi => exact congrArg₂ (element default) iha ihi
  | call tag f as ih =>
    rw [bare_call]
    exact congrArg (call default f) (hlist ih)
  | sequence tag ss ih =>
    rw [bare_sequence]
    exact congrArg (sequence default) (hlist ih)

/-! ## What the words say -/

theorem normal_signed (negative : Bool) (v : Literal) :
    (RawExpr.signed negative v).normal =
      if negative then .unary default .negative v.normal else v.normal := by
  cases negative <;> rfl

theorem normal_signedInteger (n : Int) :
    (RawExpr.signedInteger n).normal = RawExpr.signedInteger n := by
  have hmagnitude : (Literal.integer n.natAbs).normal = .literal default (.integer n.natAbs) := by
    rw [Literal.normal, RawExpr.signedInteger, decide_eq_false (by omega), Int.natAbs_natCast]
    rfl
  rw [RawExpr.signedInteger, normal_signed, hmagnitude]
  rfl

theorem normal_dateCall (d : Date) : (RawExpr.dateCall d).normal = RawExpr.dateCall d := by
  change call default "date" [(RawExpr.signedInteger d.year).normal,
    (RawExpr.signedInteger d.month).normal, (RawExpr.signedInteger d.day).normal] = _
  rw [normal_signedInteger, normal_signedInteger, normal_signedInteger]
  rfl

theorem normal_decimal {d : Decimal} (h : 0 ≤ d.unscaled) :
    (Literal.decimal d).normal = .literal default (.decimal d) := by
  rw [Literal.normal, Decimal.isNegative, decide_eq_false (by omega), Int.natAbs_of_nonneg h]
  rfl

/-- A decimal without fractional digits is read with one, which is zero. -/
theorem normal_literal (v : Literal) : v.written.normal.sameShape v.normal = true := by
  cases v with
  | integer n =>
    rw [Literal.written, normal_signedInteger]
    exact sameShape_of_bare rfl
  | decimal d =>
    have hsame : (Decimal.ofPlain d.unscaled.natAbs d.scale).sameNumber
        ⟨d.unscaled.natAbs, d.scale⟩ = true :=
      Decimal.sameNumber_ofPlain (d := ⟨d.unscaled.natAbs, d.scale⟩) (Int.natCast_nonneg _)
    rw [Literal.written, normal_signed, normal_decimal (Decimal.ofPlain_nonneg _ _), Literal.normal,
      RawExpr.signed]
    cases d.isNegative
    · exact hsame
    · exact hsame
  | date d =>
    rw [Literal.written, normal_dateCall]
    exact sameShape_of_bare rfl
  | boolean | string | null => exact sameShape_of_bare rfl

theorem normal_enclosedIf (needed : Bool) (e : RawExpr) :
    (RawExpr.enclosedIf needed e).normal = e.normal := by
  cases needed <;> rfl

/-- **The words of a tree say a tree of the same normal form.** -/
theorem normal_written (e : Expr α) (bound : Nat) :
    (e.written bound).normal.sameShape e.normal = true := by
  have hlist {bound : Nat} {es : List (Expr α)}
      (ih : ∀ e ∈ es, ∀ bound, (e.written bound).normal.sameShape e.normal = true) :
      sameShapes (normalAll (writtenAll bound es)) (normalAll es) = true := by
    rw [writtenAll_eq_map, normalAll_eq_map, normalAll_eq_map, List.map_map]
    exact sameShapes_map fun e he => ih e he bound
  induction e using Expr.induct generalizing bound with
  | literal tag v =>
    rw [written_eq, normal_enclosedIf]
    exact normal_literal v
  | var tag x =>
    rw [written_eq, normal_enclosedIf]
    exact beq_self_eq_true x
  | unary tag op x ih =>
    rw [written_eq, normal_enclosedIf]
    cases op with
    | group => exact ih _
    | positive | negative | not => exact (Bool.and_eq_true _ _).mpr ⟨beq_self_eq_true _, ih _⟩
  | binary tag op l r ihl ihr =>
    rw [written_eq, normal_enclosedIf]
    change (op.spoken.spoken == op.spoken && _ && _) = true
    rw [BinaryOp.spoken_of_ne op.spoken_ne_concat, beq_self_eq_true]
    exact (Bool.and_eq_true _ _).mpr ⟨ihl _, ihr _⟩
  | assignment tag x v ihx ihv =>
    rw [written_eq, normal_enclosedIf]
    exact (Bool.and_eq_true _ _).mpr ⟨ihx _, ihv _⟩
  | conditional tag c x y ihc ihx ihy =>
    rw [written_eq, normal_enclosedIf]
    exact (Bool.and_eq_true _ _).mpr ⟨(Bool.and_eq_true _ _).mpr ⟨ihc _, ihx _⟩, ihy _⟩
  | element tag a i iha ihi =>
    rw [written_eq, normal_enclosedIf]
    exact (Bool.and_eq_true _ _).mpr ⟨iha _, ihi _⟩
  | call tag f as ih =>
    rw [written_eq, normal_enclosedIf]
    exact (Bool.and_eq_true _ _).mpr ⟨beq_self_eq_true f, hlist ih⟩
  | sequence tag ss ih =>
    rw [written_eq, normal_enclosedIf]
    exact hlist ih

end Expr

end ComputedField
