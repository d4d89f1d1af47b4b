import ComputedField.Proofs.Expr.Shape
import ComputedField.Proofs.Value.HasType

/-!
# Checking node by node

What the typing rules say of the parts of a node where they give it a type, and what the checker
returns for each kind of node where it returns something.
-/

set_option autoImplicit false

namespace ComputedField

namespace TypedExpr

/-! ## Rules -/

section Rules

variable {D : Declarations} {name : String} {t : Option Ty}

theorem variableType_eq_ok (h : variableType D name = .ok t) :
    ∃ u, D.variableType? name = some u ∧ t = some u := by
  unfold variableType at h
  split at h
  · cases h; exact ⟨_, ‹_›, rfl⟩
  · cases h

theorem callType_eq_ok {arguments : List (Option Ty)} (h : callType D name arguments = .ok t) :
    ∃ u, D.returnType? name arguments = some u ∧ t = some u := by
  unfold callType at h
  split at h
  · cases h; exact ⟨_, ‹_›, rfl⟩
  · cases h

theorem branchesType_eq_ok {onTrue onFalse : Option Ty} (h : branchesType onTrue onFalse = .ok t) :
    Ty.branchType? onTrue onFalse = some t := by
  unfold branchesType at h
  split at h
  · cases h; assumption
  · cases h

/-- An assignment has the type of a place that may store the value. -/
theorem assignmentType_eq_ok {x v : TypedExpr} (h : assignmentType x v = .ok t) :
    ∃ place, x.target? = some place ∧ Ty.assignable place.type v.type = true ∧ t = place.type := by
  unfold assignmentType at h
  split at h
  · rename_i place hplace
    by_cases ha : Ty.assignable place.type v.type = true
    · simp only [ha, if_true, pure_eq_ok] at h
      cases h; exact ⟨place, hplace, ha, rfl⟩
    · simp only [ha, throw_eq_error] at h
      cases h
  · cases h

/-- Only an integer can be an index, and only an array can be indexed. -/
theorem elementType_eq_ok {array index : Option Ty} (h : elementType array index = .ok t) :
    Ty.NotedAs index (some .integer) ∧
      (array = none ∧ t = none ∨
        ∃ s depth, array = some (.array s depth) ∧ t = (Ty.array s depth).element?) := by
  unfold elementType at h
  by_cases hi : index = none ∨ index = some .integer
  · refine ⟨hi, ?_⟩
    simp only [hi, if_true, pure_eq_ok] at h
    cases array with
    | none => cases h; exact .inl ⟨rfl, rfl⟩
    | some a =>
      cases a with
      | scalar s => cases h
      | array s depth => cases h; exact .inr ⟨s, depth, rfl, rfl⟩
  · simp only [hi, throw_eq_error] at h
    cases h

theorem lastType_eq (ss : List TypedExpr) :
    lastType ss = (ss.map Expr.type).getLast?.getD none := by
  rw [lastType, List.getLast?_map]
  cases ss.getLast? <;> rfl

end Rules

end TypedExpr

/-! ## Nodes -/

namespace RawExpr

open TypedExpr

variable {D : Declarations} {tag : Tag Unit} {t : TypedExpr}

theorem check_literal_eq_ok {v : Literal} (h : check D (.literal tag v) = .ok t) :
    t = .literal ⟨tag.token, v.type?⟩ v := by
  cases h
  rfl

theorem check_var_eq_ok {name : String} (h : check D (.var tag name) = .ok t) :
    ∃ u, D.variableType? name = some u ∧ t = .var ⟨tag.token, some u⟩ name := by
  obtain ⟨type, htype, h⟩ := bind_eq_ok.mp h
  cases h
  obtain ⟨u, hu, rfl⟩ := variableType_eq_ok (Position.report_eq_ok.mp htype)
  exact ⟨u, hu, rfl⟩

theorem check_unary_eq_ok {op : UnaryOp} {x : RawExpr} (h : check D (.unary tag op x) = .ok t) :
    ∃ x' type, check D x = .ok x' ∧ op.resultType x'.type = .ok type ∧
      t = .unary ⟨tag.token, type⟩ op x' := by
  obtain ⟨x', hx, h⟩ := bind_eq_ok.mp h
  obtain ⟨type, htype, h⟩ := bind_eq_ok.mp h
  cases h
  exact ⟨x', type, hx, mapError_eq_ok.mp (Position.report_eq_ok.mp htype), rfl⟩

/-- The node gets the operator that the rules choose for the types of its operands. -/
theorem check_binary_eq_ok {op : BinaryOp} {l r : RawExpr}
    (h : check D (.binary tag op l r) = .ok t) :
    ∃ l' r' chosen type, check D l = .ok l' ∧ check D r = .ok r' ∧
      op.resultType l'.type r'.type = .ok (chosen, type) ∧
      t = .binary ⟨tag.token, type⟩ chosen l' r' := by
  obtain ⟨l', hl, h⟩ := bind_eq_ok.mp h
  obtain ⟨r', hr, h⟩ := bind_eq_ok.mp h
  obtain ⟨⟨chosen, type⟩, htype, h⟩ := bind_eq_ok.mp h
  cases h
  exact ⟨l', r', chosen, type, hl, hr, mapError_eq_ok.mp (Position.report_eq_ok.mp htype), rfl⟩

theorem check_assignment_eq_ok {x v : RawExpr} (h : check D (.assignment tag x v) = .ok t) :
    ∃ x' v' place, check D x = .ok x' ∧ check D v = .ok v' ∧ x'.target? = some place ∧
      Ty.assignable place.type v'.type = true ∧
      t = .assignment ⟨tag.token, place.type⟩ x' v' := by
  obtain ⟨x', hx, h⟩ := bind_eq_ok.mp h
  obtain ⟨v', hv, h⟩ := bind_eq_ok.mp h
  obtain ⟨type, htype, h⟩ := bind_eq_ok.mp h
  cases h
  obtain ⟨place, hplace, ha, rfl⟩ := assignmentType_eq_ok (Position.report_eq_ok.mp htype)
  exact ⟨x', v', place, hx, hv, hplace, ha, rfl⟩

theorem check_conditional_eq_ok {c x y : RawExpr}
    (h : check D (.conditional tag c x y) = .ok t) :
    ∃ c' x' y' type, check D c = .ok c' ∧ check D x = .ok x' ∧ check D y = .ok y' ∧
      Ty.booleanOrUnknown c'.type = true ∧ Ty.branchType? x'.type y'.type = some type ∧
      t = .conditional ⟨tag.token, type⟩ c' x' y' := by
  obtain ⟨c', hc, h⟩ := bind_eq_ok.mp h
  by_cases hb : Ty.booleanOrUnknown c'.type = true
  · simp only [hb, if_true, pure_eq_ok] at h
    obtain ⟨x', hx, h⟩ := bind_eq_ok.mp h
    obtain ⟨y', hy, h⟩ := bind_eq_ok.mp h
    obtain ⟨type, htype, h⟩ := bind_eq_ok.mp h
    cases h
    have htype := branchesType_eq_ok (Position.report_eq_ok.mp htype)
    exact ⟨c', x', y', type, hc, hx, hy, hb, htype, rfl⟩
  · -- the branches are not looked at
    simp only [hb, throw_eq_error] at h
    cases h

theorem check_element_eq_ok {a i : RawExpr} (h : check D (.element tag a i) = .ok t) :
    ∃ a' i' type, check D a = .ok a' ∧ check D i = .ok i' ∧
      elementType a'.type i'.type = .ok type ∧ t = .element ⟨tag.token, type⟩ a' i' := by
  obtain ⟨a', ha, h⟩ := bind_eq_ok.mp h
  obtain ⟨i', hi, h⟩ := bind_eq_ok.mp h
  obtain ⟨type, htype, h⟩ := bind_eq_ok.mp h
  cases h
  exact ⟨a', i', type, ha, hi, Position.report_eq_ok.mp htype, rfl⟩

theorem check_call_eq_ok {name : String} {as : List RawExpr}
    (h : check D (.call tag name as) = .ok t) :
    ∃ as' u, checkAll D as = .ok as' ∧ D.returnType? name (as'.map Expr.type) = some u ∧
      t = .call ⟨tag.token, some u⟩ name as' := by
  obtain ⟨as', has, h⟩ := bind_eq_ok.mp h
  obtain ⟨type, htype, h⟩ := bind_eq_ok.mp h
  cases h
  obtain ⟨u, hu, rfl⟩ := callType_eq_ok (Position.report_eq_ok.mp htype)
  exact ⟨as', u, has, hu, rfl⟩

theorem check_sequence_eq_ok {ss : List RawExpr} (h : check D (.sequence tag ss) = .ok t) :
    ∃ ss', checkAll D ss = .ok ss' ∧ t = .sequence ⟨tag.token, lastType ss'⟩ ss' := by
  obtain ⟨ss', hss, h⟩ := bind_eq_ok.mp h
  cases h
  exact ⟨ss', hss, rfl⟩

/-! ## Nodes over checked parts

What the checker returns for a node once it has returned something for the parts. -/

section Parts

theorem check_var_of {name : String} {u : Ty} (h : D.variableType? name = some u) :
    check D (.var tag name) = .ok (.var ⟨tag.token, some u⟩ name) := by
  have htype : variableType D name = .ok (some u) := by rw [variableType, h]
  exact bind_eq_ok.mpr ⟨_, Position.report_eq_ok.mpr htype, rfl⟩

theorem check_unary_of {op : UnaryOp} {x : RawExpr} {x' : TypedExpr} {type : Option Ty}
    (hx : check D x = .ok x') (htype : op.resultType x'.type = .ok type) :
    check D (.unary tag op x) = .ok (.unary ⟨tag.token, type⟩ op x') :=
  bind_eq_ok.mpr ⟨x', hx, bind_eq_ok.mpr
    ⟨type, Position.report_eq_ok.mpr (mapError_eq_ok.mpr htype), rfl⟩⟩

theorem check_binary_of {op chosen : BinaryOp} {l r : RawExpr} {l' r' : TypedExpr}
    {type : Option Ty} (hl : check D l = .ok l') (hr : check D r = .ok r')
    (htype : op.resultType l'.type r'.type = .ok (chosen, type)) :
    check D (.binary tag op l r) = .ok (.binary ⟨tag.token, type⟩ chosen l' r') :=
  bind_eq_ok.mpr ⟨l', hl, bind_eq_ok.mpr ⟨r', hr, bind_eq_ok.mpr
    ⟨(chosen, type), Position.report_eq_ok.mpr (mapError_eq_ok.mpr htype), rfl⟩⟩⟩

theorem check_assignment_of {x v : RawExpr} {x' v' place : TypedExpr} (hx : check D x = .ok x')
    (hv : check D v = .ok v') (hplace : x'.target? = some place)
    (ha : Ty.assignable place.type v'.type = true) :
    check D (.assignment tag x v) = .ok (.assignment ⟨tag.token, place.type⟩ x' v') := by
  have htype : assignmentType x' v' = .ok place.type := by
    simp only [assignmentType, hplace, ha, if_true]
    rfl
  exact bind_eq_ok.mpr ⟨x', hx, bind_eq_ok.mpr ⟨v', hv, bind_eq_ok.mpr
    ⟨_, Position.report_eq_ok.mpr htype, rfl⟩⟩⟩

theorem check_conditional_of {c x y : RawExpr} {c' x' y' : TypedExpr} {type : Option Ty}
    (hc : check D c = .ok c') (hx : check D x = .ok x') (hy : check D y = .ok y')
    (hb : Ty.booleanOrUnknown c'.type = true) (htype : Ty.branchType? x'.type y'.type = some type) :
    check D (.conditional tag c x y) = .ok (.conditional ⟨tag.token, type⟩ c' x' y') := by
  have hbranches : branchesType x'.type y'.type = .ok type := by rw [branchesType, htype]
  refine bind_eq_ok.mpr ⟨c', hc, ?_⟩
  simp only [hb, if_true, pure_eq_ok]
  exact bind_eq_ok.mpr ⟨x', hx, bind_eq_ok.mpr ⟨y', hy, bind_eq_ok.mpr
    ⟨type, Position.report_eq_ok.mpr hbranches, rfl⟩⟩⟩

theorem check_element_of {a i : RawExpr} {a' i' : TypedExpr} {type : Option Ty}
    (ha : check D a = .ok a') (hi : check D i = .ok i')
    (htype : elementType a'.type i'.type = .ok type) :
    check D (.element tag a i) = .ok (.element ⟨tag.token, type⟩ a' i') :=
  bind_eq_ok.mpr ⟨a', ha, bind_eq_ok.mpr ⟨i', hi, bind_eq_ok.mpr
    ⟨type, Position.report_eq_ok.mpr htype, rfl⟩⟩⟩

theorem check_call_of {name : String} {as : List RawExpr} {as' : List TypedExpr} {u : Ty}
    (has : checkAll D as = .ok as') (hu : D.returnType? name (as'.map Expr.type) = some u) :
    check D (.call tag name as) = .ok (.call ⟨tag.token, some u⟩ name as') := by
  have htype : callType D name (as'.map Expr.type) = .ok (some u) := by rw [callType, hu]
  exact bind_eq_ok.mpr ⟨as', has, bind_eq_ok.mpr ⟨_, Position.report_eq_ok.mpr htype, rfl⟩⟩

theorem check_sequence_of {ss : List RawExpr} {ss' : List TypedExpr}
    (hss : checkAll D ss = .ok ss') :
    check D (.sequence tag ss) = .ok (.sequence ⟨tag.token, lastType ss'⟩ ss') :=
  bind_eq_ok.mpr ⟨ss', hss, rfl⟩

end Parts

/-! ## Lists of nodes -/

/-- What holds of a member and what is returned for it, wherever it stands, holds all along the
lists. -/
theorem forall₂_of_checkAll_of_mem {R : RawExpr → TypedExpr → Prop} {es : List RawExpr}
    {ts : List TypedExpr} (h : checkAll D es = .ok ts)
    (hR : ∀ e ∈ es, ∀ {t}, check D e = .ok t → R e t) : List.Forall₂ R es ts := by
  induction es generalizing ts with
  | nil =>
    cases h; exact .nil
  | cons e es ih =>
    obtain ⟨t, ht, h⟩ := bind_eq_ok.mp h
    obtain ⟨us, hus, h⟩ := bind_eq_ok.mp h
    cases h
    obtain ⟨he, hes⟩ := List.forall_mem_cons.mp hR
    exact .cons (he ht) (ih hus hes)

theorem forall₂_of_checkAll {es : List RawExpr} {ts : List TypedExpr}
    (h : checkAll D es = .ok ts) : List.Forall₂ (fun e t => check D e = .ok t) es ts :=
  forall₂_of_checkAll_of_mem h fun _ _ _ ht => ht

/-- Members that are accepted one by one are accepted in a row. -/
theorem checkAll_of_forall₂ {es : List RawExpr} {ts : List TypedExpr}
    (h : List.Forall₂ (fun e t => check D e = .ok t) es ts) : checkAll D es = .ok ts := by
  induction h with
  | nil => rfl
  | cons he _ ih => exact bind_eq_ok.mpr ⟨_, he, bind_eq_ok.mpr ⟨_, ih, rfl⟩⟩

end RawExpr

end ComputedField
