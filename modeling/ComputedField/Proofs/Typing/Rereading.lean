import ComputedField.Proofs.Expr.Forms
import ComputedField.Proofs.Typing.CheckShape
import ComputedField.Proofs.Typing.Inferred

/-!
# Checking what was written

A well-typed expression whose types can be found again is written as words that the checker accepts
(`rereads_of_program`). What comes back is the expression with parentheses around some of its parts,
with a sign in front of the absolute value of a negative number, with fractional digits behind every
decimal, and with the types that were found: `TypedExpr.Echoes`.
-/

set_option autoImplicit false

namespace ComputedField

/-- What is read for `v`: the same value, and where `v` is read back the same literal. -/
structure Literal.ReadsAs (v v' : Literal) : Prop where
  same : v'.same v = true
  eq : v.isReadBack = true → v' = v

theorem Literal.ReadsAs.refl (v : Literal) : v.ReadsAs v := ⟨v.same_self, fun _ => rfl⟩

theorem Literal.ReadsAs.toValue {v v' : Literal} {exact : Bool} (h : v.ReadsAs v')
    (hexact : exact = true → v.isReadBack = true) : v.toValue.Matches exact v'.toValue :=
  ⟨h.same, fun he => by rw [h.eq (hexact he)]⟩

namespace TypedExpr

/-- The second expression is what the first comes back as. The types are the same where they decide
what is evaluated. -/
inductive Echoes : TypedExpr → TypedExpr → Prop where
  | literal {tag tag' : Tag (Option Ty)} {v v' : Literal} : v.ReadsAs v' →
      Echoes (.literal tag v) (.literal tag' v')
  | negative {tag sign tag' : Tag (Option Ty)} {v v' w : Literal} : v.ReadsAs v' →
      UnaryOp.negative.apply w.toValue = .ok v'.toValue →
      Echoes (.literal tag v) (.unary sign .negative (.literal tag' w))
  | var {tag tag' : Tag (Option Ty)} {name : String} : Echoes (.var tag name) (.var tag' name)
  /-- A place needs no parentheses, so that it stays one. -/
  | group {tag : Tag (Option Ty)} {e e' : TypedExpr} : e.isPlace = false → Echoes e e' →
      Echoes e (.unary tag .group e')
  | unary {tag tag' : Tag (Option Ty)} {op : UnaryOp} {x x' : TypedExpr} : Echoes x x' →
      Echoes (.unary tag op x) (.unary tag' op x')
  /-- Strings whose types were forgotten are added and not joined. -/
  | binary {tag tag' : Tag (Option Ty)} {op op' : BinaryOp} {l l' r r' : TypedExpr} :
      op'.spoken = op.spoken → Echoes l l' → Echoes r r' →
      Echoes (.binary tag op l r) (.binary tag' op' l' r')
  | assignment {tag tag' : Tag (Option Ty)} {x x' v v' : TypedExpr} : Echoes x x' → Echoes v v' →
      Echoes (.assignment tag x v) (.assignment tag' x' v')
  | conditional {tag tag' : Tag (Option Ty)} {c c' x x' y y' : TypedExpr} :
      Ty.branchType? x'.type y'.type = Ty.branchType? x.type y.type →
      Echoes c c' → Echoes x x' → Echoes y y' →
      Echoes (.conditional tag c x y) (.conditional tag' c' x' y')
  | element {tag tag' : Tag (Option Ty)} {a a' i i' : TypedExpr} : Echoes a a' → Echoes i i' →
      Echoes (.element tag a i) (.element tag' a' i')
  | call {tag tag' : Tag (Option Ty)} {name : String} {parts : List (TypedExpr × TypedExpr)} :
      (parts.map Prod.snd).map Expr.type = (parts.map Prod.fst).map Expr.type →
      (∀ p ∈ parts, Echoes p.1 p.2) →
      Echoes (.call tag name (parts.map Prod.fst)) (.call tag' name (parts.map Prod.snd))
  | sequence {tag tag' : Tag (Option Ty)} {parts : List (TypedExpr × TypedExpr)} :
      (∀ p ∈ parts, Echoes p.1 p.2) →
      Echoes (.sequence tag (parts.map Prod.fst)) (.sequence tag' (parts.map Prod.snd))

variable {D : Declarations}

/-! ## Places -/

namespace Echoes

/-- A place comes back as a place in the same variable. -/
theorem isPlace {e e' : TypedExpr} (h : Echoes e e') (he : e.isPlace = true) :
    e'.isPlace = true ∧ e'.root?.map Prod.snd = e.root?.map Prod.snd := by
  induction h with
  | var => exact ⟨rfl, rfl⟩
  | group hplace => rw [hplace] at he; cases he
  | element _ _ iha => exact iha he
  | _ => cases he

/-- The type of a place is declared, and cannot be forgotten. -/
theorem type_of_isPlace {e e' : TypedExpr} (h : Echoes e e') (he : e.isPlace = true)
    (hw : WellTyped D e) (hw' : WellTyped D e') : e'.type = e.type := by
  induction h with
  | var =>
    cases hw with
    | var ht hnote =>
      cases hw' with
      | var ht' hnote' =>
        rw [ht] at ht'
        cases ht'
        exact hnote'.trans hnote.symm
  | group hplace => rw [hplace] at he; cases he
  | @element tag tag' a a' i i' _ _ iha =>
    cases hw with
    | element ha _ ht hnote =>
      cases hw' with
      | element ha' _ ht' hnote' =>
        obtain ⟨u, hu⟩ := ha.type_of_isPlace he
        have hu' := (iha he ha ha').trans hu
        obtain ⟨-, ⟨h, -⟩ | ⟨s, depth, hs, rfl⟩⟩ := elementType_eq_ok ht
        · rw [hu] at h; cases h
        · obtain ⟨-, ⟨h, -⟩ | ⟨s', depth', hs', rfl⟩⟩ := elementType_eq_ok ht'
          · rw [hu'] at h; cases h
          · rw [hu] at hs
            rw [hu', hs] at hs'
            cases hs'
            exact hnote'.eq_of_some.trans hnote.eq_of_some.symm
  | _ => cases he

/-- What an assignment writes comes back as what it writes. -/
theorem target? {e e' place : TypedExpr} (h : Echoes e e') (hplace : e.target? = some place) :
    ∃ place', e'.target? = some place' ∧ Echoes place place' := by
  induction h with
  | var =>
    cases hplace
    exact ⟨_, rfl, .var⟩
  | group _ _ ih => exact ih hplace
  | @unary tag tag' op x x' _ ih =>
    cases op with
    | group => exact ih hplace
    | positive | negative | not => cases hplace
  | assignment _ _ _ ihv => exact ihv hplace
  | @element tag tag' a a' i i' ha hi =>
    obtain ⟨hisPlace, rfl⟩ := Expr.target?_element.mp hplace
    exact ⟨.element tag' a' i', Expr.target?_element.mpr ⟨(ha.isPlace hisPlace).1, rfl⟩,
      .element ha hi⟩
  | _ => cases hplace

end Echoes

/-! ## What is read back -/

/-- Whatever is read as `written` is accepted, and `e` comes back for it with the type that the
rules find. -/
def Rereads (D : Declarations) (e : TypedExpr) (written : RawExpr) : Prop :=
  ∀ u : RawExpr, u.bare = written.bare →
    ∃ e', RawExpr.check D u = .ok e' ∧ Echoes e e' ∧ e'.type = inferred e

theorem Rereads.enclosedIf {e : TypedExpr} {written : RawExpr} {needed : Bool}
    (h : Rereads D e written) (hplace : needed = true → e.isPlace = false) :
    Rereads D e (RawExpr.enclosedIf needed written) := by
  cases needed with
  | false => exact h
  | true =>
    intro u hu
    obtain ⟨tag, x, rfl, hx⟩ := Expr.eq_unary_of_bare hu
    obtain ⟨e', hcheck, hechoes, htype⟩ := h x hx
    exact ⟨_, RawExpr.check_unary_of hcheck rfl, .group (hplace rfl) hechoes, htype⟩

/-- A part is put in parentheses where it has to be; a place never. -/
theorem Rereads.at {e : TypedExpr} {bound : Nat}
    (h : Rereads D e (e.written Precedence.sequence)) (hbound : bound ≤ Precedence.primary) :
    Rereads D e (e.written bound) := by
  rw [Expr.written_eq]
  refine h.enclosedIf fun hneeded => ?_
  cases e with
  | var | element => exact absurd hbound (Nat.not_le_of_lt (of_decide_eq_true hneeded))
  | _ => rfl

theorem rereads_signed {tag : Tag (Option Ty)} {v v' w : Literal} {negative : Bool}
    (hread : v.ReadsAs v') (hpositive : negative = false → w = v')
    (hnegative : negative = true → UnaryOp.negative.apply w.toValue = .ok v'.toValue)
    (htype : w.type? = v.type?) (hnumber : Ty.numericOrUnknown w.type? = true) :
    Rereads D (.literal tag v) (RawExpr.signed negative w) := by
  cases negative with
  | false =>
    obtain rfl := hpositive rfl
    intro u hu
    obtain ⟨tag', rfl⟩ := Expr.eq_literal_of_bare hu
    exact ⟨_, rfl, .literal hread, htype⟩
  | true =>
    intro u hu
    obtain ⟨sign, x, rfl, hx⟩ := Expr.eq_unary_of_bare hu
    obtain ⟨tag', rfl⟩ := Expr.eq_literal_of_bare hx
    have hsign : UnaryOp.negative.resultType w.type? = .ok w.type? := by
      simp only [UnaryOp.resultType, hnumber, if_true]
    exact ⟨_, RawExpr.check_unary_of rfl hsign, .negative hread (hnegative rfl), htype⟩

/-- Every decimal is read as the same number, and as itself if it has fractional digits. -/
theorem rereads_decimal {tag : Tag (Option Ty)} (d : Decimal) :
    Rereads D (.literal tag (.decimal d)) (Literal.decimal d).written := by
  have hsame : (Decimal.ofPlain d.unscaled.natAbs d.scale).sameNumber ⟨d.unscaled.natAbs, d.scale⟩
      = true := Decimal.sameNumber_ofPlain (d := ⟨d.unscaled.natAbs, d.scale⟩) (Int.natCast_nonneg _)
  have hform (hback : (Literal.decimal d).isReadBack = true) :
      Decimal.ofPlain d.unscaled.natAbs d.scale = ⟨d.unscaled.natAbs, d.scale⟩ :=
    Decimal.ofPlain_eq (d := ⟨d.unscaled.natAbs, d.scale⟩) (Int.natCast_nonneg _)
      (of_decide_eq_true hback)
  by_cases hn : d.unscaled < 0
  · have hneg : -(d.unscaled.natAbs : Int) = d.unscaled := by omega
    have hread : (Literal.decimal d).ReadsAs
        (.decimal (Decimal.ofPlain d.unscaled.natAbs d.scale).neg) := by
      have hsame' := Decimal.sameNumber_neg hsame
      rw [hneg] at hsame'
      refine ⟨hsame', fun hback => ?_⟩
      rw [hform hback, Decimal.neg, hneg]
    rw [Literal.written, Decimal.isNegative, decide_eq_true hn]
    exact rereads_signed hread (by simp) (fun _ => rfl) rfl rfl
  · have hread : (Literal.decimal d).ReadsAs
        (.decimal (Decimal.ofPlain d.unscaled.natAbs d.scale)) := by
      rw [Int.natAbs_of_nonneg (by omega)] at hsame hform
      exact ⟨hsame, fun hback => congrArg Literal.decimal (hform hback)⟩
    rw [Literal.written, Decimal.isNegative, decide_eq_false hn]
    exact rereads_signed hread (fun _ => rfl) (by simp) rfl rfl

theorem rereads_literal {tag : Tag (Option Ty)} {v : Literal} (hv : v.type? ≠ some .date) :
    Rereads D (.literal tag v) v.written := by
  cases v with
  | integer n =>
    refine rereads_signed (.refl _) ?_ ?_ rfl rfl
    · intro h
      rw [Int.natAbs_of_nonneg (by simpa using h)]
    · intro h
      have hn : n < 0 := of_decide_eq_true h
      change Except.ok (Value.integer (-(n.natAbs : Int))) = .ok (.integer n)
      rw [show -(n.natAbs : Int) = n by omega]
  | decimal d => exact rereads_decimal d
  | date d => exact absurd rfl hv
  | boolean | string | null =>
    intro u hu
    obtain ⟨tag', rfl⟩ := Expr.eq_literal_of_bare hu
    exact ⟨_, rfl, .literal (.refl _), rfl⟩

/-! ## Lists -/

theorem Rereads.all {bound : Nat} {es : List TypedExpr}
    (h : ∀ e ∈ es, Rereads D e (e.written bound)) {us : List RawExpr}
    (hus : us.map Expr.bare = (es.map (Expr.written bound)).map Expr.bare) :
    ∃ parts : List (TypedExpr × TypedExpr), parts.map Prod.fst = es ∧
      RawExpr.checkAll D us = .ok (parts.map Prod.snd) ∧ (∀ p ∈ parts, Echoes p.1 p.2) ∧
      (parts.map Prod.snd).map Expr.type = es.map inferred := by
  induction es generalizing us with
  | nil =>
    obtain rfl := List.map_eq_nil_iff.mp hus
    exact ⟨[], rfl, rfl, by simp, rfl⟩
  | cons e es ih =>
    obtain ⟨u, us, rfl, hu, hus⟩ := List.map_eq_cons_iff.mp hus
    obtain ⟨e', hcheck, hechoes, htype⟩ := h e List.mem_cons_self u hu
    obtain ⟨parts, hfst, hchecks, hparts, htypes⟩ :=
      ih (fun e he => h e (List.mem_cons_of_mem _ he)) hus
    refine ⟨(e, e') :: parts, ?_, ?_, ?_, ?_⟩
    · rw [List.map_cons, hfst]
    · exact bind_eq_ok.mpr ⟨e', hcheck, bind_eq_ok.mpr ⟨_, hchecks, rfl⟩⟩
    · intro p hp
      rcases List.mem_cons.mp hp with rfl | hp
      · exact hechoes
      · exact hparts p hp
    · rw [List.map_cons, List.map_cons, List.map_cons, htypes, htype]

/-! ## Every node -/

theorem rereads_unary {tag : Tag (Option Ty)} {op : UnaryOp} {x : TypedExpr} {bound : Nat}
    {t : Option Ty} (ht : op.resultType x.type = .ok t) (hforgets : Ty.Forgets x.type (inferred x))
    (hx : Rereads D x (x.written bound)) :
    Rereads D (.unary tag op x) (.unary default op (x.written bound)) := by
  intro u hu
  obtain ⟨tag', u, rfl, hx'⟩ := Expr.eq_unary_of_bare hu
  obtain ⟨x', hcheck, hechoes, htype⟩ := hx u hx'
  obtain ⟨s, hs, -⟩ := UnaryOp.resultType_of_forgets hforgets ht
  refine ⟨_, RawExpr.check_unary_of hcheck (htype ▸ hs), .unary hechoes, ?_⟩
  change s = (op.resultType (inferred x)).toOption.join
  rw [hs]
  rfl

theorem rereads_binary {tag : Tag (Option Ty)} {op : BinaryOp} {l r : TypedExpr}
    {leftBound rightBound : Nat} {t : Option Ty} (ht : op.resultType l.type r.type = .ok (op, t))
    (hpower : op = .power →
      Ty.powerResult (inferred l) (inferred r) = Ty.powerResult l.type r.type)
    (hlf : Ty.Forgets l.type (inferred l)) (hrf : Ty.Forgets r.type (inferred r))
    (hl : Rereads D l (l.written leftBound)) (hr : Rereads D r (r.written rightBound)) :
    Rereads D (.binary tag op l r)
      (.binary default op.spoken (l.written leftBound) (r.written rightBound)) := by
  intro u hu
  obtain ⟨tag', ul, ur, rfl, hul, hur⟩ := Expr.eq_binary_of_bare hu
  obtain ⟨l', hlcheck, hlechoes, hltype⟩ := hl ul hul
  obtain ⟨r', hrcheck, hrechoes, hrtype⟩ := hr ur hur
  obtain ⟨chosen, s, hs, hspoken, -⟩ := BinaryOp.resultType_of_forgets hlf hrf ht hpower
  have hs' : op.spoken.resultType l'.type r'.type = .ok (chosen, s) := by rw [hltype, hrtype, hs]
  refine ⟨_, RawExpr.check_binary_of hlcheck hrcheck hs', .binary hspoken hlechoes hrechoes, ?_⟩
  change s = (op.spoken.resultType (inferred l) (inferred r)).toOption.bind Prod.snd
  rw [hs]
  rfl

theorem rereads_conditional {tag : Tag (Option Ty)} {c x y : TypedExpr} {cb xb yb : Nat}
    {t : Option Ty}
    (hb : Ty.booleanOrUnknown c.type = true)
    (ht : Ty.branchType? x.type y.type = some t)
    (hbranches : Ty.branchType? (inferred x) (inferred y) = Ty.branchType? x.type y.type)
    (hcf : Ty.Forgets c.type (inferred c)) (hc : Rereads D c (c.written cb))
    (hx : Rereads D x (x.written xb)) (hy : Rereads D y (y.written yb)) :
    Rereads D (.conditional tag c x y)
      (.conditional default (c.written cb) (x.written xb) (y.written yb)) := by
  intro u hu
  obtain ⟨tag', uc, ux, uy, rfl, huc, hux, huy⟩ := Expr.eq_conditional_of_bare hu
  obtain ⟨c', hccheck, hcechoes, hctype⟩ := hc uc huc
  obtain ⟨x', hxcheck, hxechoes, hxtype⟩ := hx ux hux
  obtain ⟨y', hycheck, hyechoes, hytype⟩ := hy uy huy
  have hb' : Ty.booleanOrUnknown c'.type = true := by
    rw [hctype]
    exact hcf.booleanOrUnknown hb
  have hsame : Ty.branchType? x'.type y'.type = Ty.branchType? x.type y.type := by
    rw [hxtype, hytype, hbranches]
  refine ⟨_, RawExpr.check_conditional_of hccheck hxcheck hycheck hb' (hsame.trans ht),
    .conditional hsame hcechoes hxechoes hyechoes, ?_⟩
  change t = (Ty.branchType? (inferred x) (inferred y)).join
  rw [hbranches, ht]
  rfl

theorem rereads_element {tag : Tag (Option Ty)} {a i : TypedExpr} {ab ib : Nat} {t : Option Ty}
    (ht : elementType a.type i.type = .ok t) (haf : Ty.Forgets a.type (inferred a))
    (hif : Ty.Forgets i.type (inferred i)) (ha : Rereads D a (a.written ab))
    (hi : Rereads D i (i.written ib)) :
    Rereads D (.element tag a i) (.element default (a.written ab) (i.written ib)) := by
  intro u hu
  obtain ⟨tag', ua, ui, rfl, hua, hui⟩ := Expr.eq_element_of_bare hu
  obtain ⟨a', hacheck, haechoes, hatype⟩ := ha ua hua
  obtain ⟨i', hicheck, hiechoes, hitype⟩ := hi ui hui
  obtain ⟨hs, -⟩ := elementType_of_forgets haf hif ht
  rw [← hatype, ← hitype] at hs
  refine ⟨_, RawExpr.check_element_of hacheck hicheck hs, .element haechoes hiechoes, ?_⟩
  change a'.type.bind Ty.element? = (inferred a).bind Ty.element?
  rw [hatype]

theorem rereads_call {tag : Tag (Option Ty)} {name : String} {as : List TypedExpr} {bound : Nat}
    {t : Ty} (ht : D.returnType? name (as.map Expr.type) = some t) (hnote : tag.note = some t)
    (htypes : as.map inferred = as.map Expr.type)
    (has : ∀ a ∈ as, Rereads D a (a.written bound)) :
    Rereads D (.call tag name as) (.call default name (Expr.writtenAll bound as)) := by
  intro u hu
  rw [Expr.writtenAll_eq_map, Expr.bare_call] at hu
  obtain ⟨tag', us, rfl, hus⟩ := Expr.eq_call_of_bare hu
  obtain ⟨parts, rfl, hcheck, hechoes, hparts⟩ := Rereads.all has hus
  have hsame := hparts.trans htypes
  exact ⟨_, RawExpr.check_call_of hcheck (hsame ▸ ht), .call hsame hechoes, hnote.symm⟩

theorem rereads_assignment {tag : Tag (Option Ty)} {x v place : TypedExpr} {xb vb : Nat}
    (hplace : x.target? = some place) (ha : Ty.assignable place.type v.type = true)
    (hnote : tag.note = place.type) (hw : WellTyped D x) (hvf : Ty.Forgets v.type (inferred v))
    (hx : Rereads D x (x.written xb)) (hv : Rereads D v (v.written vb)) :
    Rereads D (.assignment tag x v) (.assignment default (x.written xb) (v.written vb)) := by
  intro u hu
  obtain ⟨tag', ux, uv, rfl, hux, huv⟩ := Expr.eq_assignment_of_bare hu
  obtain ⟨x', hxcheck, hxechoes, -⟩ := hx ux hux
  obtain ⟨v', hvcheck, hvechoes, hvtype⟩ := hv uv huv
  obtain ⟨place', hplace', hechoes⟩ := hxechoes.target? hplace
  obtain ⟨hpw, hisPlace⟩ := hw.target? hplace
  have hpw' := ((RawExpr.wellTyped_of_check hxcheck).target? hplace').1
  have htype := hechoes.type_of_isPlace hisPlace hpw hpw'
  have ha' : Ty.assignable place'.type v'.type = true := by
    rw [htype, hvtype]
    exact hvf.assignable ha
  exact ⟨_, RawExpr.check_assignment_of hxcheck hvcheck hplace' ha', .assignment hxechoes hvechoes,
    htype.trans hnote.symm⟩

theorem rereads_sequence {tag : Tag (Option Ty)} {ss : List TypedExpr} {bound : Nat}
    (hss : ∀ s ∈ ss, Rereads D s (s.written bound)) :
    Rereads D (.sequence tag ss) (.sequence default (Expr.writtenAll bound ss)) := by
  intro u hu
  rw [Expr.writtenAll_eq_map, Expr.bare_sequence] at hu
  obtain ⟨tag', us, rfl, hus⟩ := Expr.eq_sequence_of_bare hu
  obtain ⟨parts, rfl, hcheck, hechoes, hparts⟩ := Rereads.all hss hus
  refine ⟨_, RawExpr.check_sequence_of hcheck, .sequence hechoes, ?_⟩
  change lastType _ = lastInferred none _
  rw [lastInferred_eq, lastType_eq, hparts]

/-! ## Whole formulas -/

/-- A plain expression comes back where it was written. -/
theorem rereads_of_plain {e : TypedExpr} (hp : e.Plain) (hw : WellTyped D e)
    (hr : restorable e = true) {bound : Nat} (hbound : bound ≤ Precedence.primary) :
    Rereads D e (e.written bound) := by
  induction hp generalizing bound with
  | literal tag v => exact (rereads_literal (bne_iff_ne.mp hr)).at hbound
  | var tag name =>
    refine Rereads.at (fun u hu => ?_) hbound
    obtain ⟨tag', rfl⟩ := Expr.eq_var_of_bare hu
    cases hw with
    | var ht hnote => exact ⟨_, RawExpr.check_var_of ht, .var, hnote.symm⟩
  | @unary tag op x _ ih =>
    refine Rereads.at ?_ hbound
    have hbounds : (if op = .group then Precedence.conditional else Precedence.primary) ≤
        Precedence.primary := by split <;> decide
    have hx := ih hw.operand hr hbounds
    have hforgets := hw.operand.forgets hr
    cases hw with
    | group => exact rereads_unary rfl hforgets hx
    | unary _ _ ht _ => exact rereads_unary ht hforgets hx
  | @binary tag op l r _ _ ihl ihr =>
    obtain ⟨hpower, hlr, hrr⟩ := restorable_binary.mp hr
    cases hw with
    | binary hl hr ht _ =>
      exact Rereads.at (rereads_binary ht hpower (hl.forgets hlr) (hr.forgets hrr)
        (ihl hl hlr op.bounds_le.1) (ihr hr hrr op.bounds_le.2)) hbound
  | conditional _ _ _ ihc ihx ihy =>
    obtain ⟨hbranches, hcr, hxr, hyr⟩ := restorable_conditional.mp hr
    cases hw with
    | conditional hc hx hy hb ht _ =>
      exact Rereads.at (rereads_conditional hb ht hbranches (hc.forgets hcr)
        (ihc hc hcr (by decide)) (ihx hx hxr (by decide)) (ihy hy hyr (by decide))) hbound
  | element _ _ iha ihi =>
    obtain ⟨har, hir⟩ := restorable_element.mp hr
    cases hw with
    | element ha hi ht _ =>
      exact Rereads.at (rereads_element ht (ha.forgets har) (hi.forgets hir)
        (iha ha har (Nat.le_refl _)) (ihi hi hir (by decide))) hbound
  | call _ ih =>
    obtain ⟨htypes, har⟩ := restorable_call.mp hr
    cases hw with
    | call has ht hnote =>
      exact Rereads.at (rereads_call ht hnote htypes
        fun a ha => ih a ha (has a ha) (har a ha) (by decide)) hbound

theorem rereads_of_statement {e : TypedExpr} (hs : e.Statement) (hw : WellTyped D e)
    (hr : restorable e = true) : Rereads D e (e.written Precedence.assignment) := by
  induction hs with
  | plain hp => exact rereads_of_plain hp hw hr (by decide)
  | assignment hp _ ih =>
    obtain ⟨hxr, hvr⟩ := restorable_assignment.mp hr
    cases hw with
    | assignment hx hv hplace ha hnote =>
      exact Rereads.at (rereads_assignment hplace ha hnote hx (hv.forgets hvr)
        (rereads_of_plain hp hx hxr (by decide)) (ih hv hvr)) (by decide)

/-- **What was written is accepted again**, and comes back as it was. -/
theorem rereads_of_program {e : TypedExpr} (hp : e.Program) (hw : WellTyped D e)
    (hr : restorable e = true) : Rereads D e (e.written Precedence.sequence) := by
  cases hp with
  | statement hs =>
    rw [← Expr.written_of_le hs.assignment_le_precedence]
    exact rereads_of_statement hs hw hr
  | sequence hss =>
    exact rereads_sequence fun s hs =>
      rereads_of_statement (hss s hs) (hw.statements s hs) (restorable_sequence.mp hr s hs)

end TypedExpr

end ComputedField
