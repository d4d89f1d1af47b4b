import ComputedField.Proofs.Environment.Conforms
import ComputedField.Proofs.Evaluation.Nodes
import ComputedField.Proofs.Typing.WellTyped
import ComputedField.Proofs.Value.Operators

/-!
# Type soundness of evaluation

In a world whose variables conform, a well-typed expression yields a value of its static type or
fails over numbers, and leaves variables that conform. What `isPure` allows does not fail at all and
leaves the world as it was. `TypedExpr.WellTyped.sound` is the induction that shows both.
-/

set_option autoImplicit false

namespace ComputedField

/-! ## Runs that keep the variables conforming -/

namespace Run

variable {σ α β : Type} {D : Declarations}

/-- From variables that conform to `D`, the run comes to a value that satisfies `Q` or fails over
numbers, and the variables conform to `D` again. A `quiet` run cannot fail and changes nothing. -/
def Keeps (D : Declarations) (quiet : Bool) (m : Run σ α) (Q : α → Prop) : Prop :=
  ∀ w, w.vars.Conform D →
    m.Ends w (fun a w' => Q a ∧ w'.vars.Conform D ∧ (quiet = true → w' = w))
      (fun e w' => e.fault.isArithmetic = true ∧ w'.vars.Conform D ∧ quiet = false)

variable {quiet quiet' : Bool} {m : Run σ α} {f : α → Run σ β} {Q : α → Prop} {R : β → Prop}

namespace Keeps

theorem pure {a : α} (h : Q a) : Keeps D quiet (Pure.pure a : Run σ α) Q :=
  fun _ hw => ⟨h, hw, fun _ => rfl⟩

theorem bind (h : Keeps D quiet m Q) (hf : ∀ a, Q a → Keeps D quiet (f a) R) :
    Keeps D quiet (m >>= f) R := by
  intro w hw
  refine (h w hw).bind ?_
  intro a w' hend
  obtain ⟨ha, hw', hsame⟩ := hend
  refine (hf a ha w' hw').imp ?_ fun _ _ he => he
  intro b w'' hend
  obtain ⟨hb, hw'', hsame'⟩ := hend
  exact ⟨hb, hw'', fun hq => (hsame' hq).trans (hsame hq)⟩

/-- A run may be taken to be less quiet than it is. -/
theorem mono (h : Keeps D quiet m Q) (hq : quiet' = true → quiet = true) :
    Keeps D quiet' m Q := by
  intro w hw
  refine (h w hw).imp ?_ ?_
  · intro a w' hend
    obtain ⟨ha, hw', hsame⟩ := hend
    exact ⟨ha, hw', fun h => hsame (hq h)⟩
  · intro e w' hend
    obtain ⟨he, hw', hquiet⟩ := hend
    refine ⟨he, hw', ?_⟩
    cases quiet' with
    | false => rfl
    | true => rw [hq rfl] at hquiet; cases hquiet

theorem loud (h : Keeps D quiet m Q) : Keeps D false m Q := h.mono fun h => by cases h

theorem ok {w w' : World σ} {a : α} (h : Keeps D quiet m Q) (hw : w.vars.Conform D)
    (hm : m.result w = (.ok a, w')) : Q a ∧ w'.vars.Conform D :=
  have hend := (h w hw).ok hm
  ⟨hend.1, hend.2.1⟩

theorem error {w w' : World σ} {e : EvalError} (h : Keeps D quiet m Q) (hw : w.vars.Conform D)
    (hm : m.result w = (.error e, w')) : e.fault.isArithmetic = true ∧ w'.vars.Conform D :=
  have hend := (h w hw).error hm
  ⟨hend.1, hend.2.1⟩

/-- A quiet run has a value in every conforming world, and leaves that world. -/
theorem result_eq (h : Keeps D true m Q) {w : World σ} (hw : w.vars.Conform D) :
    ∃ a, m.result w = (.ok a, w) ∧ Q a := by
  cases hm : m.result w with
  | mk r w' =>
    cases r with
    | ok a =>
      obtain ⟨ha, -, hsame⟩ := (h w hw).ok hm
      rw [hsame rfl] at hm ⊢
      exact ⟨a, rfl, ha⟩
    | error e =>
      obtain ⟨-, -, hquiet⟩ := (h w hw).error hm
      cases hquiet

theorem located_ok {pos : Position} {r : Except EvalFault α} {a : α} (hr : r = .ok a) (h : Q a) :
    Keeps D quiet (Run.located pos r : Run σ α) Q := by
  subst hr
  exact pure h

theorem located_yields {pos : Position} {r : Except EvalFault Value} {mayFail : Bool}
    {t : Option Ty} (h : Yields mayFail t r) (hq : quiet = true → mayFail = false) :
    Keeps D quiet (Run.located pos r : Run σ Value) (·.HasType t) := by
  rcases h with ⟨v, rfl, hv⟩ | ⟨hfail, fault, rfl, hf⟩
  · exact pure hv
  · intro w hw
    refine ⟨hf, hw, ?_⟩
    cases quiet with
    | false => rfl
    | true => rw [hq rfl] at hfail; cases hfail

/-- The cast to its note brings the value of a node to the type of the node. -/
theorem cast {m : Run σ Value} {t note : Option Ty} (h : Keeps D quiet m (·.HasType t))
    (ht : Ty.Widens t note) :
    Keeps D quiet (do let v ← m; return v.castTo note) (·.HasType note) :=
  h.bind fun _ hv => pure (hv.castTo ht)

end Keeps

/-! ## Variables, places and calls -/

variable {name : String} {t : Ty}

theorem keeps_readVariable (pos : Position) (ht : D.variableType? name = some t) :
    Keeps D quiet (readVariable pos name : Run σ Value) (·.HasType (some t)) := by
  intro w hw
  obtain ⟨v, hv, -, hvt⟩ := hw.find? ht
  exact .of_ok (result_readVariable_of_find? pos hv) ⟨hvt, hw, fun _ => rfl⟩

theorem writeVariable_succeeds (pos : Position) (ht : D.variableType? name = some t)
    {value : Value} (hvalue : value.HasType (some t)) {w : World σ} (hw : w.vars.Conform D) :
    ∃ w', (writeVariable pos name value).result w = (.ok (), w') ∧ w'.vars.Conform D := by
  obtain ⟨vs, hvs, hconform⟩ := hw.assign? ht hvalue (.refl _)
  refine ⟨{ w with vars := vs }, ?_, hconform⟩
  rw [result_writeVariable, hvs]

/-- Once the indices and the value are there, writing cannot fail. -/
theorem writePlace_succeeds (pos rootPos : Position) {u : Ty} {indices : List Value}
    {value : Value} (ht : D.variableType? name = some t) (hpath : Ty.Path t indices u)
    (hvalue : value.HasType (some u)) {w : World σ} (hw : w.vars.Conform D) :
    ∃ w', (writePlace pos rootPos name indices value).result w = (.ok (), w') ∧
      w'.vars.Conform D := by
  obtain ⟨v, hv, -, hvt⟩ := hw.find? ht
  obtain ⟨r, hr, hrt⟩ := hpath.setElement hvalue hvt
  rw [result_writePlace pos rootPos hv hr]
  cases r with
  -- an index that leads nowhere is reported, and the variables stay as they are
  | none => exact ⟨_, rfl, hw⟩
  | some slot => exact writeVariable_succeeds rootPos ht (hrt slot rfl) hw

theorem keeps_writePlace (pos rootPos : Position) {u : Ty} {indices : List Value} {value : Value}
    (ht : D.variableType? name = some t) (hpath : Ty.Path t indices u)
    (hvalue : value.HasType (some u)) :
    Keeps D false (writePlace pos rootPos name indices value : Run σ Unit) fun _ => True := by
  intro w hw
  obtain ⟨w', hresult, hw'⟩ := writePlace_succeeds pos rootPos ht hpath hvalue hw
  exact .of_ok hresult ⟨trivial, hw', fun h => by cases h⟩

theorem keeps_call {functions : Functions σ} (hfs : functions.Conform D) (pos : Position)
    {types : List (Option Ty)} (ht : D.returnType? name types = some t) {arguments : List Value}
    (ha : List.Forall₂ Value.HasType arguments types) :
    Keeps D false (do let v ← call functions pos name types arguments; return v.castTo (some t))
      (·.HasType (some t)) := by
  intro w hw
  obtain ⟨f, hf, hinvoke⟩ := hfs.invoke ht ha
  have hcall := result_call hf pos arguments w
  exact .of_ok (result_bind_of_ok hcall) ⟨hinvoke w.host, hw, fun h => by cases h⟩

end Run

namespace TypedExpr

open Run

variable {σ : Type} {D : Declarations} {functions : Functions σ} {ctx : MathContext}
  {e : TypedExpr} {quiet : Bool}

/-! ## Lists of expressions -/

theorem keeps_evalAll {es : List TypedExpr}
    (h : ∀ e ∈ es, Keeps D quiet (eval functions ctx e) (·.HasType e.type)) :
    Keeps D quiet (evalAll functions ctx es)
      (List.Forall₂ Value.HasType · (es.map Expr.type)) := by
  induction es with
  | nil =>
    rw [evalAll_nil]
    exact .pure .nil
  | cons e es ih =>
    rw [evalAll_cons]
    refine (h e List.mem_cons_self).bind fun v hv => ?_
    refine (ih fun x hx => h x (List.mem_cons_of_mem e hx)).bind fun vs hvs => ?_
    exact .pure (.cons hv hvs)

/-- The value of the last statement; where there is none, the one that came before is passed on. -/
theorem keeps_evalLast {ss : List TypedExpr} {last : Value} {t : Option Ty}
    (hlast : last.HasType t)
    (h : ∀ s ∈ ss, Keeps D quiet (eval functions ctx s) (·.HasType s.type)) :
    Keeps D quiet (evalLast functions ctx last ss)
      (·.HasType (ss.getLast?.elim t Expr.type)) := by
  induction ss generalizing last t with
  | nil =>
    rw [evalLast_nil]
    exact .pure hlast
  | cons s ss ih =>
    rw [evalLast_cons]
    refine (h s List.mem_cons_self).bind fun v hv => ?_
    have htail := ih hv fun x hx => h x (List.mem_cons_of_mem s hx)
    cases hl : ss.getLast? with
    | none => simpa [List.getLast?_cons, hl] using htail
    | some x => simpa [List.getLast?_cons, hl] using htail

theorem isPure_of_mem {α : Type} {es : List (Expr α)} (h : Expr.arePure es = true) :
    ∀ e ∈ es, e.isPure = true := by
  induction es with
  | nil => intro e he; cases he
  | cons e es ih =>
    rw [Expr.arePure, Bool.and_eq_true] at h
    intro x hx
    rcases List.mem_cons.mp hx with rfl | hx
    · exact h.1
    · exact ih h.2 x hx

/-! ## Targets -/

/-- The place behind a target has a declared variable at its root, and the indices lead from the
type of the variable to the type of the place. -/
def LeadsToPlace (D : Declarations) (functions : Functions σ) (ctx : MathContext)
    (e : TypedExpr) : Prop :=
  ∀ place, e.target? = some place → ∃ root name t u, place.root? = some (root, name) ∧
    D.variableType? name = some t ∧ place.type = some u ∧
    Keeps D false (evalIndices functions ctx e) (Ty.Path t · u)

theorem LeadsToPlace.of_none (h : e.target? = none) : LeadsToPlace D functions ctx e := by
  intro place hplace
  rw [h] at hplace
  cases hplace

/-- Parentheses and chains stand for the target that is in them. -/
theorem LeadsToPlace.of_eq {x : TypedExpr} (h : LeadsToPlace D functions ctx x)
    (htarget : e.target? = x.target?)
    (hindices : evalIndices functions ctx e = evalIndices functions ctx x) :
    LeadsToPlace D functions ctx e := by
  intro place hplace
  rw [htarget] at hplace
  rw [hindices]
  exact h place hplace

theorem leadsToPlace_var {tag : Tag (Option Ty)} {name : String} {t : Ty}
    (ht : D.variableType? name = some t) (hnote : tag.note = some t) :
    LeadsToPlace D functions ctx (.var tag name) := by
  intro place hplace
  cases hplace
  refine ⟨tag, name, t, t, rfl, ht, hnote, ?_⟩
  rw [evalIndices_var]
  exact .pure (.nil t)

/-- An element of a place is a place one dimension further in. -/
theorem leadsToPlace_element {tag : Tag (Option Ty)} {a i : TypedExpr} {t : Option Ty}
    (ht : elementType a.type i.type = .ok t) (hnote : Ty.NotedAs t tag.note)
    (ha : LeadsToPlace D functions ctx a)
    (hi : Keeps D false (eval functions ctx i) (·.HasType i.type)) :
    LeadsToPlace D functions ctx (.element tag a i) := by
  intro place hplace
  obtain ⟨hisPlace, rfl⟩ := Expr.target?_element.mp hplace
  obtain ⟨root, name, vt, arrayType, hroot, hvt, harrayType, hindices⟩ :=
    ha a (Expr.target?_of_isPlace hisPlace)
  obtain ⟨hindex, harray⟩ := elementType_eq_ok ht
  rcases harray with ⟨hnone, -⟩ | ⟨s, depth, hsome, htype⟩
  · rw [harrayType] at hnone; cases hnone
  · rw [harrayType] at hsome
    cases hsome
    obtain ⟨u, hu⟩ : ∃ u, (Ty.array s depth).element? = some u := ⟨_, rfl⟩
    rw [htype, hu] at hnote
    refine ⟨root, name, vt, u, hroot, hvt, hnote.eq_of_some, ?_⟩
    rw [evalIndices_element]
    refine hindices.bind fun indices hpath => hi.bind fun index hv => .pure ?_
    exact hpath.snoc hu (hv.notedAs hindex)

/-! ## Node by node -/

theorem keeps_unary {tag : Tag (Option Ty)} {op : UnaryOp} {x : TypedExpr} {t : Option Ty}
    (ht : op.resultType x.type = .ok t) (hnote : Ty.NotedAs t tag.note)
    (hx : Keeps D quiet (eval functions ctx x) (·.HasType x.type)) :
    Keeps D quiet (eval functions ctx (.unary tag op x)) (·.HasType tag.note) := by
  rw [eval_unary]
  refine hx.bind fun v hv => ?_
  obtain ⟨w, hw, hwt⟩ := UnaryOp.apply_hasType ht hv
  exact (Keeps.located_ok (Q := (·.HasType t)) hw hwt).cast (.inl hnote)

theorem keeps_binary {tag : Tag (Option Ty)} {op : BinaryOp} {l r : TypedExpr} {t : Option Ty}
    (hop : op.propagatesNull = true) (ht : op.resultType l.type r.type = .ok (op, t))
    (hnote : Ty.NotedAs t tag.note) (hquiet : quiet = true → op.mayFail = false)
    (hl : Keeps D quiet (eval functions ctx l) (·.HasType l.type))
    (hr : Keeps D quiet (eval functions ctx r) (·.HasType r.type)) :
    Keeps D quiet (eval functions ctx (.binary tag op l r)) (·.HasType tag.note) := by
  rw [eval_binary functions ctx tag hop]
  refine hl.bind fun a ha => hr.bind fun b hb => ?_
  have hyields : Yields op.mayFail t (op.apply ctx a b) := BinaryOp.apply_yields ht ha hb
  exact (Keeps.located_yields hyields hquiet).cast (.inl hnote)

theorem keeps_connective {tag : Tag (Option Ty)} {c : Connective} {l r : TypedExpr}
    {t : Option Ty} (ht : (BinaryOp.connective c).resultType l.type r.type = .ok (.connective c, t))
    (hnote : Ty.NotedAs t tag.note) (hl : Keeps D quiet (eval functions ctx l) (·.HasType l.type))
    (hr : Keeps D quiet (eval functions ctx r) (·.HasType r.type)) :
    Keeps D quiet (eval functions ctx (.binary tag (.connective c) l r)) (·.HasType tag.note) := by
  cases BinaryOp.rule_of_resultType ht with
  | connective _ hlt hrt =>
    rw [eval_connective]
    refine hl.bind fun left hleft => ?_
    obtain ⟨x, -, hx⟩ := hleft.truth hlt
    refine (Keeps.located_ok (Q := fun _ => True) hx trivial).bind fun x _ => ?_
    refine Keeps.cast (t := some .boolean) ?_ (.inl hnote)
    unfold evalRight
    by_cases hdet : x = some c.determining
    · rw [if_pos hdet]
      exact .pure (.boolean _)
    · rw [if_neg hdet]
      refine hr.bind fun right hright => ?_
      obtain ⟨y, -, hy⟩ := hright.truth hrt
      refine (Keeps.located_ok (Q := fun _ => True) hy trivial).bind fun y _ => ?_
      exact .pure (Value.hasType_ofTruth _)

theorem keeps_conditional {tag : Tag (Option Ty)} {c x y : TypedExpr} {t : Option Ty}
    (hb : Ty.booleanOrUnknown c.type = true) (ht : Ty.branchType? x.type y.type = some t)
    (hnote : Ty.NotedAs t tag.note)
    (hc : Keeps D quiet (eval functions ctx c) (·.HasType c.type))
    (hx : Keeps D quiet (eval functions ctx x) (·.HasType x.type))
    (hy : Keeps D quiet (eval functions ctx y) (·.HasType y.type)) :
    Keeps D quiet (eval functions ctx (.conditional tag c x y)) (·.HasType tag.note) := by
  obtain ⟨hxt, hyt⟩ := Ty.widens_of_branchType? ht
  rw [eval_conditional]
  refine hc.bind fun condition hcondition => ?_
  obtain ⟨b, -, htruth⟩ := hcondition.truth hb
  refine (Keeps.located_ok (Q := fun _ => True) htruth trivial).bind fun b _ => ?_
  unfold evalBranch
  by_cases hbt : b = some true
  · rw [if_pos hbt]
    exact hx.cast (hxt.trans_notedAs hnote)
  · rw [if_neg hbt]
    exact hy.cast (hyt.trans_notedAs hnote)

theorem keeps_assignment {tag : Tag (Option Ty)} {x v place : TypedExpr}
    (hplace : x.target? = some place) (ha : Ty.assignable place.type v.type = true)
    (hnote : tag.note = place.type)
    (hx : Keeps D false (eval functions ctx x) (·.HasType x.type))
    (hindices : LeadsToPlace D functions ctx x)
    (hv : Keeps D false (eval functions ctx v) (·.HasType v.type)) :
    Keeps D false (eval functions ctx (.assignment tag x v)) (·.HasType tag.note) := by
  obtain ⟨root, name, t, u, hroot, ht, hu, hindices⟩ := hindices place hplace
  rw [hu] at ha hnote
  have hrest : Keeps D false (do
      let indices ← evalIndices functions ctx x
      let value ← eval functions ctx v
      writePlace tag.token.pos root.token.pos name indices (value.castTo place.type)
      return (value.castTo place.type).castTo tag.note) (·.HasType tag.note) := by
    refine hindices.bind fun indices hpath => hv.bind fun value hvalue => ?_
    have hcast := hvalue.castTo (Ty.widens_of_assignable ha)
    rw [hu, hnote]
    refine (keeps_writePlace _ _ ht hpath hcast).bind fun _ _ => .pure ?_
    rw [hcast.castTo_eq]
    exact hcast
  rw [eval_assignment functions ctx tag hplace hroot]
  by_cases hisAssignment : x.isAssignment = true
  · -- a chain in the target's place is run first, for its effects alone
    simp only [hisAssignment, if_true]
    exact (Keeps.bind hx fun _ _ => .pure trivial).bind (Q := fun _ => True) fun _ _ => hrest
  · simp only [hisAssignment]
    exact hrest

/-- An element of a value that the rules let be indexed. -/
theorem element_of_elementType {arrayType indexType t : Option Ty} {array index : Value}
    (ht : elementType arrayType indexType = .ok t) (ha : array.HasType arrayType)
    (hi : index.HasType indexType) : ∃ v, array.element index = .ok v ∧ v.HasType t := by
  obtain ⟨hindex, harray⟩ := elementType_eq_ok ht
  rcases harray with ⟨rfl, rfl⟩ | ⟨s, depth, rfl, rfl⟩
  · rw [ha.eq_null]
    exact ⟨.null, rfl, .null none⟩
  · exact ha.element (hi.notedAs hindex)

theorem keeps_element {tag : Tag (Option Ty)} {a i : TypedExpr} {t : Option Ty}
    (ht : elementType a.type i.type = .ok t) (hnote : Ty.NotedAs t tag.note)
    (ha : Keeps D quiet (eval functions ctx a) (·.HasType a.type))
    (hi : Keeps D quiet (eval functions ctx i) (·.HasType i.type)) :
    Keeps D quiet (eval functions ctx (.element tag a i)) (·.HasType tag.note) := by
  rw [eval_element]
  refine ha.bind fun array hav => hi.bind fun index hiv => ?_
  obtain ⟨v, hv, hvt⟩ := element_of_elementType ht hav hiv
  exact (Keeps.located_ok (Q := (·.HasType t)) hv hvt).cast (.inl hnote)

theorem lastType_eq_elim (ss : List TypedExpr) :
    lastType ss = ss.getLast?.elim none Expr.type := by
  cases hl : ss.getLast? <;> simp [lastType, hl]

theorem keeps_sequence {tag : Tag (Option Ty)} {ss : List TypedExpr}
    (hnote : Ty.NotedAs (lastType ss) tag.note)
    (hss : ∀ s ∈ ss, Keeps D quiet (eval functions ctx s) (·.HasType s.type)) :
    Keeps D quiet (eval functions ctx (.sequence tag ss)) (·.HasType tag.note) := by
  rw [eval_sequence]
  -- without statements the value is null, which is of the unknown type
  exact (keeps_evalLast (.null none) hss).cast (.inl (lastType_eq_elim ss ▸ hnote))

/-! ## Every node -/

namespace WellTyped

/-- Induction over the typing rules: what every node promises of its value, as quietly as
`isPure` says, and of the indices where it is a target. -/
theorem sound (hfs : functions.Conform D) (h : WellTyped D e) :
    Keeps D e.isPure (eval functions ctx e) (·.HasType e.type) ∧
      LeadsToPlace D functions ctx e := by
  induction h with
  | literal hv =>
    refine ⟨?_, .of_none rfl⟩
    rw [eval_literal, hv.castTo_eq]
    exact .pure hv
  | var ht hnote =>
    refine ⟨?_, leadsToPlace_var ht hnote⟩
    rw [eval_var]
    exact (keeps_readVariable _ ht).cast (.inl (.inr hnote.symm))
  | @group tag x _ hnote ih =>
    have hgroup : UnaryOp.group.resultType x.type = .ok x.type := rfl
    exact ⟨keeps_unary hgroup (.inr hnote.symm) ih.1, ih.2.of_eq rfl (evalIndices_group ..)⟩
  | unary hop _ ht hnote ih =>
    exact ⟨keeps_unary ht hnote ih.1, .of_none (Expr.target?_unary hop)⟩
  | @binary tag op l r t _ _ ht hnote ihl ihr =>
    refine ⟨?_, .of_none rfl⟩
    have hpure : (Expr.binary tag op l r).isPure = true →
        op.mayFail = false ∧ l.isPure = true ∧ r.isPure = true := by
      simp [Expr.isPure, and_assoc]
    have hl := ihl.1.mono fun h => (hpure h).2.1
    have hr := ihr.1.mono fun h => (hpure h).2.2
    rcases op.propagatesNull_or_connective with hop | ⟨c, rfl⟩
    · exact keeps_binary hop ht hnote (fun h => (hpure h).1) hl hr
    · exact keeps_connective ht hnote hl hr
  | @assignment tag x v place _ _ hplace ha hnote ihx ihv =>
    -- an assignment is never pure, and as a target it stands for its right side
    refine ⟨keeps_assignment hplace ha hnote ihx.1.loud ihx.2 ihv.1.loud, ?_⟩
    exact ihv.2.of_eq rfl (evalIndices_assignment ..)
  | @conditional tag c x y t _ _ _ hb ht hnote ihc ihx ihy =>
    refine ⟨?_, .of_none rfl⟩
    have hpure : (Expr.conditional tag c x y).isPure = true →
        c.isPure = true ∧ x.isPure = true ∧ y.isPure = true := by
      simp [Expr.isPure, and_assoc]
    exact keeps_conditional hb ht hnote (ihc.1.mono fun h => (hpure h).1)
      (ihx.1.mono fun h => (hpure h).2.1) (ihy.1.mono fun h => (hpure h).2.2)
  | @element tag a i t _ _ ht hnote iha ihi =>
    refine ⟨?_, leadsToPlace_element ht hnote iha.2 ihi.1.loud⟩
    have hpure : (Expr.element tag a i).isPure = true → a.isPure = true ∧ i.isPure = true := by
      simp [Expr.isPure]
    exact keeps_element ht hnote (iha.1.mono fun h => (hpure h).1)
      (ihi.1.mono fun h => (hpure h).2)
  | @call tag f as t _ ht hnote ih =>
    refine ⟨?_, .of_none rfl⟩
    rw [eval_call]
    show Keeps D _ _ fun v : Value => v.HasType tag.note
    rw [hnote]
    have hall := keeps_evalAll fun a ha => (ih a ha).1.loud
    exact hall.bind fun vs hvs => keeps_call hfs _ ht hvs
  | @sequence tag ss _ hnote _ ih =>
    refine ⟨?_, .of_none rfl⟩
    exact keeps_sequence hnote fun s hs => (ih s hs).1.mono fun h => isPure_of_mem h s hs

/-- **Type soundness.** A well-typed expression yields a value of its static type or fails over
numbers, and the variables conform again. -/
theorem keeps_eval (hfs : functions.Conform D) (h : WellTyped D e) :
    Keeps D false (eval functions ctx e) (·.HasType e.type) :=
  (h.sound hfs).1.loud

theorem keeps_eval_of_isPure (hfs : functions.Conform D) (h : WellTyped D e)
    (hp : e.isPure = true) : Keeps D true (eval functions ctx e) (·.HasType e.type) :=
  (h.sound hfs).1.mono fun _ => hp

theorem leadsToPlace (hfs : functions.Conform D) (h : WellTyped D e) (ctx : MathContext) :
    LeadsToPlace D functions ctx e :=
  (h.sound hfs).2

end WellTyped

end TypedExpr

end ComputedField
