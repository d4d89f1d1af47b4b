import ComputedField.Proofs.Evaluation.Alike
import ComputedField.Proofs.Typing.Rereading

/-!
# Evaluating what comes back

An expression and what it comes back as, once it has been written and read, end alike
(`TypedExpr.Echoes.alike`), if the decimals of which the form matters come back as they were. Both
are well-typed, so that values that stand for one another are of both types: where a type was
forgotten they are null.
-/

set_option autoImplicit false

namespace ComputedField

/-! ## Operators -/

namespace BinaryOp

theorem eq_of_spoken {op op' : BinaryOp} (h : op'.spoken = op.spoken) :
    op' = op ∨ (op = add ∧ op' = concat) ∨ (op = concat ∧ op' = add) := by
  cases op <;> cases op' <;> simp_all [spoken, add]

variable {exact : Bool} {ctx : MathContext} {l r l' r' t t' : Option Ty} {a b a' b' : Value}

/-- Where a sum of numbers stands for one of strings, both have null for their operands. -/
theorem apply_add_concat (hadd : add.resultType l r = .ok (add, t))
    (hconcat : concat.resultType l' r' = .ok (concat, t')) (ha : a.HasType l) (ha' : a'.HasType l')
    (hkind : a'.kind = a.kind) :
    add.apply ctx a b = .ok .null ∧ concat.apply ctx a' b' = .ok .null := by
  have hnull : a = .null ∧ a' = .null := by
    cases rule_of_resultType hadd with
    | arithmetic _ _ hn =>
      cases rule_of_resultType hconcat with
      | join _ _ hj =>
        obtain ⟨hln, -⟩ := (Bool.and_eq_true _ _).mp hn
        obtain ⟨hls, -⟩ := (Bool.and_eq_true _ _).mp ((Bool.and_eq_true _ _).mp hj).1
        rcases ha'.string_inv hls with rfl | ⟨s, rfl⟩
        · cases a <;> cases hkind
          exact ⟨rfl, rfl⟩
        · rcases ha.number hln with rfl | hnumber
          · cases hkind
          · cases hnumber <;> cases hkind
  rw [hnull.1, hnull.2]
  exact ⟨apply_null rfl (.inl rfl), apply_null rfl (.inl rfl)⟩

/-- An operator and one with the same mark take operands that stand for one another to results that
do. -/
theorem apply_of_spoken {op op' : BinaryOp} (h : op'.spoken = op.spoken)
    (ht : op.resultType l r = .ok (op, t)) (ht' : op'.resultType l' r' = .ok (op', t'))
    (hl : a.HasType l) (hl' : a'.HasType l') (ha : a.Matches (op.asksForm exact) a')
    (hb : b.Matches (op.asksForm exact) b') :
    SameOutcome (Value.Matches exact) (op.apply ctx a b) (op'.apply ctx a' b') := by
  rcases eq_of_spoken h with rfl | ⟨rfl, rfl⟩ | ⟨rfl, rfl⟩
  · exact apply_matches ha hb
  · obtain ⟨hsum, hjoin⟩ := apply_add_concat ht ht' hl hl' ha.kind_eq
    rw [hsum, hjoin]
    exact .ok (.refl exact _)
  · obtain ⟨hsum, hjoin⟩ := apply_add_concat ht' ht hl' hl ha.kind_eq.symm
    rw [hsum, hjoin]
    exact .ok (.refl exact _)

end BinaryOp

/-- A value is cast alike by two notes that stand for one type. -/
theorem Value.HasType.castTo_congr {v : Value} {t s note note' : Option Ty} (h : v.HasType t)
    (hs : Ty.Widens t s) (hn : Ty.NotedAs s note) (hn' : Ty.NotedAs s note') :
    v.castTo note' = v.castTo note := by
  rcases hn with rfl | rfl
  · -- nothing but null widens to the unknown type
    have hnull := (h.castTo hs).eq_null
    rcases hs with hs | ⟨-, hs⟩
    · rw [h.castTo_of_notedAs hs] at hnull
      rw [hnull, castTo_null, castTo_null]
    · cases hs
  · rcases hn' with rfl | rfl
    · rcases hs with hs | ⟨-, hs⟩
      · rw [(h.notedAs hs).eq_null, castTo_null, castTo_null]
      · cases hs
    · rfl

namespace TypedExpr

open Run

variable {σ : Type} {kept : String → Bool} {exact : Bool} {D : Declarations}
  {functions : Functions σ} {ctx : MathContext} {tag tag' : Tag (Option Ty)}

/-! ## Node by node -/

theorem keeps_truth {pos : Position} {v : Value} {t : Option Ty} (hv : v.HasType t)
    (ht : Ty.booleanOrUnknown t = true) :
    Keeps (σ := σ) D false (Run.located pos v.truth) fun _ => True := by
  obtain ⟨b, -, hb⟩ := hv.truth ht
  exact .located_ok hb trivial

section Nodes

variable (hfs : functions.Conform D)

include hfs

theorem alike_group {e e' : TypedExpr} (hw : WellTyped D e)
    (hw' : WellTyped D (.unary tag .group e'))
    (h : AlikeUpTo kept (Value.Matches exact) D (eval functions ctx e) (eval functions ctx e')) :
    AlikeUpTo kept (Value.Matches exact) D (eval functions ctx e)
      (eval functions ctx (.unary tag .group e')) := by
  obtain ⟨t, ht, hnote⟩ := hw'.unary_inv
  cases ht
  rw [eval_unary, ← bind_pure (eval functions ctx e)]
  refine h.bind (hw.keeps_eval hfs) (hw'.operand.keeps_eval hfs) fun v v' hv _ hvt => ?_
  rw [UnaryOp.apply_group]
  change AlikeUpTo kept _ D (pure v) (pure (v'.castTo tag.note))
  rw [hvt.castTo_of_notedAs hnote]
  exact .pure hv

theorem alike_unary {op : UnaryOp} {x x' : TypedExpr} (hw : WellTyped D (.unary tag op x))
    (hw' : WellTyped D (.unary tag' op x'))
    (hx : AlikeUpTo kept (Value.Matches exact) D (eval functions ctx x) (eval functions ctx x')) :
    AlikeUpTo kept (Value.Matches exact) D (eval functions ctx (.unary tag op x))
      (eval functions ctx (.unary tag' op x')) := by
  obtain ⟨t, ht, hnote⟩ := hw.unary_inv
  obtain ⟨t', ht', hnote'⟩ := hw'.unary_inv
  rw [eval_unary, eval_unary]
  refine hx.bind (hw.operand.keeps_eval hfs) (hw'.operand.keeps_eval hfs) fun v v' h hv hv' => ?_
  have hy : Yields false t (op.apply v) := .inl (UnaryOp.apply_hasType ht hv)
  have hy' : Yields false t' (op.apply v') := .inl (UnaryOp.apply_hasType ht' hv')
  exact .cast (UnaryOp.apply_matches h) hy hnote hy' hnote'

theorem alike_binary {op op' : BinaryOp} (hop : op.propagatesNull = true)
    (hspoken : op'.spoken = op.spoken) {l l' r r' : TypedExpr}
    (hw : WellTyped D (.binary tag op l r)) (hw' : WellTyped D (.binary tag' op' l' r'))
    (hl : AlikeUpTo kept (Value.Matches (op.asksForm exact)) D (eval functions ctx l)
      (eval functions ctx l'))
    (hr : AlikeUpTo kept (Value.Matches (op.asksForm exact)) D (eval functions ctx r)
      (eval functions ctx r')) :
    AlikeUpTo kept (Value.Matches exact) D (eval functions ctx (.binary tag op l r))
      (eval functions ctx (.binary tag' op' l' r')) := by
  have hop' : op'.propagatesNull = true := by
    rcases BinaryOp.eq_of_spoken hspoken with rfl | ⟨rfl, rfl⟩ | ⟨rfl, rfl⟩
    · exact hop
    · rfl
    · rfl
  cases hw with
  | binary hlw hrw ht hnote =>
    cases hw' with
    | binary hlw' hrw' ht' hnote' =>
      rw [eval_binary functions ctx tag hop, eval_binary functions ctx tag' hop']
      refine hl.bind (hlw.keeps_eval hfs) (hlw'.keeps_eval hfs) fun a a' ha hat hat' => ?_
      refine hr.bind (hrw.keeps_eval hfs) (hrw'.keeps_eval hfs) fun b b' hb hbt hbt' => ?_
      exact .cast (BinaryOp.apply_of_spoken hspoken ht ht' hat hat' ha hb)
        (BinaryOp.apply_yields ht hat hbt) hnote (BinaryOp.apply_yields ht' hat' hbt') hnote'

theorem alike_connective {c : Connective} {l l' r r' : TypedExpr}
    (hw : WellTyped D (.binary tag (.connective c) l r))
    (hw' : WellTyped D (.binary tag' (.connective c) l' r'))
    (hl : AlikeUpTo kept (Value.Matches false) D (eval functions ctx l) (eval functions ctx l'))
    (hr : AlikeUpTo kept (Value.Matches false) D (eval functions ctx r) (eval functions ctx r')) :
    AlikeUpTo kept (Value.Matches exact) D (eval functions ctx (.binary tag (.connective c) l r))
      (eval functions ctx (.binary tag' (.connective c) l' r')) := by
  obtain ⟨hlw, hrw, hlt, hrt, hnote⟩ := hw.connective_inv
  obtain ⟨hlw', hrw', hlt', hrt', hnote'⟩ := hw'.connective_inv
  rw [eval_connective, eval_connective, hnote, hnote']
  refine hl.bind (hlw.keeps_eval hfs) (hlw'.keeps_eval hfs) fun left left' h hv hv' => ?_
  refine (AlikeUpTo.located h.truth).bind (keeps_truth hv hlt) (keeps_truth hv' hlt') ?_
  rintro b _ rfl - -
  unfold evalRight
  by_cases hdet : b = some c.determining
  · rw [if_pos hdet, if_pos hdet]
    exact .pure (.refl exact _)
  · rw [if_neg hdet, if_neg hdet, bind_assoc, bind_assoc]
    refine hr.bind (hrw.keeps_eval hfs) (hrw'.keeps_eval hfs) fun right right' h hv hv' => ?_
    rw [bind_assoc, bind_assoc]
    refine (AlikeUpTo.located h.truth).bind (keeps_truth hv hrt) (keeps_truth hv' hrt') ?_
    rintro b' _ rfl - -
    exact .pure (.refl exact _)

theorem alike_conditional {c c' x x' y y' : TypedExpr}
    (hbranches : Ty.branchType? x'.type y'.type = Ty.branchType? x.type y.type)
    (hw : WellTyped D (.conditional tag c x y)) (hw' : WellTyped D (.conditional tag' c' x' y'))
    (hc : AlikeUpTo kept (Value.Matches false) D (eval functions ctx c) (eval functions ctx c'))
    (hx : AlikeUpTo kept (Value.Matches exact) D (eval functions ctx x) (eval functions ctx x'))
    (hy : AlikeUpTo kept (Value.Matches exact) D (eval functions ctx y) (eval functions ctx y')) :
    AlikeUpTo kept (Value.Matches exact) D (eval functions ctx (.conditional tag c x y))
      (eval functions ctx (.conditional tag' c' x' y')) := by
  cases hw with
  | @conditional _ _ _ _ t hcw hxw hyw hb ht hnote =>
    cases hw' with
    | conditional hcw' hxw' hyw' hb' ht' hnote' =>
      -- one type for the branches of both, so that both widen alike
      rw [hbranches, ht] at ht'
      cases ht'
      obtain ⟨hxt, hyt⟩ := Ty.widens_of_branchType? ht
      have hcast {v v' : Value} {u : Option Ty} (h : v.Matches exact v') (hv : v.HasType u)
          (hu : Ty.Widens u t) : (v.castTo tag.note).Matches exact (v'.castTo tag'.note) := by
        rw [← hv.castTo_congr hu hnote hnote']
        exact h.castTo _
      rw [eval_conditional, eval_conditional]
      refine hc.bind (hcw.keeps_eval hfs) (hcw'.keeps_eval hfs) fun _ _ h hv hv' => ?_
      refine (AlikeUpTo.located h.truth).bind (keeps_truth hv hb) (keeps_truth hv' hb') ?_
      rintro b _ rfl - -
      unfold evalBranch
      by_cases hbt : b = some true
      · rw [if_pos hbt, if_pos hbt]
        exact hx.bind (hxw.keeps_eval hfs) (hxw'.keeps_eval hfs) fun _ _ h hv _ =>
          .pure (hcast h hv hxt)
      · rw [if_neg hbt, if_neg hbt]
        exact hy.bind (hyw.keeps_eval hfs) (hyw'.keeps_eval hfs) fun _ _ h hv _ =>
          .pure (hcast h hv hyt)

theorem alike_element {a a' i i' : TypedExpr} (hw : WellTyped D (.element tag a i))
    (hw' : WellTyped D (.element tag' a' i'))
    (ha : AlikeUpTo kept (Value.Matches exact) D (eval functions ctx a) (eval functions ctx a'))
    (hi : AlikeUpTo kept (Value.Matches false) D (eval functions ctx i) (eval functions ctx i')) :
    AlikeUpTo kept (Value.Matches exact) D (eval functions ctx (.element tag a i))
      (eval functions ctx (.element tag' a' i')) := by
  cases hw with
  | @element _ _ _ t haw hiw ht hnote =>
    cases hw' with
    | @element _ _ _ t' haw' hiw' ht' hnote' =>
      rw [eval_element, eval_element]
      refine ha.bind (haw.keeps_eval hfs) (haw'.keeps_eval hfs) fun array array' ha hav hav' => ?_
      refine hi.bind (hiw.keeps_eval hfs) (hiw'.keeps_eval hfs) fun index index' hi hiv hiv' => ?_
      have hy : Yields false t (array.element index) := .inl (element_of_elementType ht hav hiv)
      have hy' : Yields false t' (array'.element index') :=
        .inl (element_of_elementType ht' hav' hiv')
      exact .cast (ha.element hi) hy hnote hy' hnote'

/-- The place of both assignments is in one variable and of one type, and no chain stands in it. -/
theorem alike_assignment {x x' v v' place : TypedExpr} {root : Tag (Option Ty)} {name : String}
    (hplace : x.target? = some place) (hroot : place.root? = some (root, name))
    (hw : WellTyped D (.assignment tag x v)) (hw' : WellTyped D (.assignment tag' x' v'))
    (hechoes : Echoes x x') (hchain : x.isAssignment = false) (hchain' : x'.isAssignment = false)
    (hindices : AlikeUpTo kept (List.Forall₂ (Value.Matches false)) D
      (evalIndices functions ctx x) (evalIndices functions ctx x'))
    (hv : AlikeUpTo kept (Value.Matches (exact || kept name)) D (eval functions ctx v)
      (eval functions ctx v')) :
    AlikeUpTo kept (Value.Matches exact) D (eval functions ctx (.assignment tag x v))
      (eval functions ctx (.assignment tag' x' v')) := by
  cases hw with
  | @assignment _ _ _ place₀ hxw hvw hplace₀ _ hnote =>
    obtain rfl : place = place₀ := Option.some.inj (hplace.symm.trans hplace₀)
    cases hw' with
    | @assignment _ _ _ place' hxw' hvw' hplace' _ hnote' =>
      obtain ⟨place'', hsame, hplaces⟩ := hechoes.target? hplace
      obtain rfl : place' = place'' := Option.some.inj (hplace'.symm.trans hsame)
      obtain ⟨hpw, hisPlace⟩ := hxw.target? hplace
      have htype := hplaces.type_of_isPlace hisPlace hpw (hxw'.target? hplace').1
      obtain ⟨_, _, _, _, -, -, -, hkeeps⟩ := hxw.leadsToPlace hfs ctx place hplace
      obtain ⟨root', name', t', u', hroot', -, -, hkeeps'⟩ :=
        hxw'.leadsToPlace hfs ctx place' hplace'
      have hname : name' = name := by
        have hroots := (hplaces.isPlace hisPlace).2
        rw [hroot, hroot'] at hroots
        exact Option.some.inj hroots
      rw [eval_assignment functions ctx tag hplace hroot,
        eval_assignment functions ctx tag' hplace' hroot', hname, hnote, hnote', htype, hchain,
        hchain']
      refine hindices.bind hkeeps hkeeps' fun indices indices' hindices _ _ => ?_
      refine hv.bind (hvw.keeps_eval hfs) (hvw'.keeps_eval hfs) fun value value' h _ _ => ?_
      have hvalue : value.Matches exact value' := h.mono fun he => by rw [he, Bool.true_or]
      have hstored : value.Matches (kept name) value' := h.mono fun hk => by rw [hk, Bool.or_true]
      intro w w' hw _ _
      refine (sameEnd_writePlace hw hindices (hstored.castTo _)).bind fun _ _ _ _ _ _ _ hw => ?_
      exact .ok ((hvalue.castTo _).castTo _) hw

/-! ## Lists -/

theorem keeps_evalAll_of_wellTyped {es : List TypedExpr} (h : ∀ e ∈ es, WellTyped D e) :
    Keeps D false (evalAll functions ctx es) (List.Forall₂ Value.HasType · (es.map Expr.type)) :=
  keeps_evalAll fun e he => (h e he).keeps_eval hfs

theorem alike_evalAll {parts : List (TypedExpr × TypedExpr)}
    (hw : ∀ e ∈ parts.map Prod.fst, WellTyped D e) (hw' : ∀ e ∈ parts.map Prod.snd, WellTyped D e)
    (h : ∀ p ∈ parts, AlikeUpTo kept (Value.Matches true) D (eval functions ctx p.1)
      (eval functions ctx p.2)) :
    AlikeUpTo kept Eq D (evalAll functions ctx (parts.map Prod.fst))
      (evalAll functions ctx (parts.map Prod.snd)) := by
  induction parts with
  | nil => exact .pure rfl
  | cons p parts ih =>
    obtain ⟨hp, htail⟩ := List.forall_mem_cons.mp h
    obtain ⟨hpw, htw⟩ := List.forall_mem_cons.mp hw
    obtain ⟨hpw', htw'⟩ := List.forall_mem_cons.mp hw'
    rw [List.map_cons, List.map_cons, evalAll_cons, evalAll_cons]
    refine hp.bind (hpw.keeps_eval hfs) (hpw'.keeps_eval hfs) fun v v' hv _ _ => ?_
    refine (ih htw htw' htail).bind (keeps_evalAll_of_wellTyped hfs htw)
      (keeps_evalAll_of_wellTyped hfs htw') ?_
    rintro vs _ rfl - -
    rw [hv.eq]
    exact .pure rfl

/-- Arguments of the same types select the same function. -/
theorem alike_call {name : String} {parts : List (TypedExpr × TypedExpr)}
    (htypes : (parts.map Prod.snd).map Expr.type = (parts.map Prod.fst).map Expr.type)
    (hw : WellTyped D (.call tag name (parts.map Prod.fst)))
    (hw' : WellTyped D (.call tag' name (parts.map Prod.snd)))
    (h : ∀ p ∈ parts, AlikeUpTo kept (Value.Matches true) D (eval functions ctx p.1)
      (eval functions ctx p.2)) :
    AlikeUpTo kept (Value.Matches exact) D
      (eval functions ctx (.call tag name (parts.map Prod.fst)))
      (eval functions ctx (.call tag' name (parts.map Prod.snd))) := by
  cases hw with
  | call has ht hnote =>
    cases hw' with
    | call has' ht' hnote' =>
      rw [htypes, ht] at ht'
      cases ht'
      rw [eval_call, eval_call, htypes, hnote, hnote']
      refine (alike_evalAll hfs has has' h).bind (keeps_evalAll_of_wellTyped hfs has)
        (keeps_evalAll_of_wellTyped hfs has') ?_
      rintro vs _ rfl - -
      intro w w' hw _ _
      refine (sameEnd_call hw ..).bind fun v _ _ _ hv _ _ hw => ?_
      exact .ok (hv ▸ .refl exact _) hw

/-- The values of all statements but the last are dropped. -/
theorem alike_evalLast {parts : List (TypedExpr × TypedExpr)}
    (hw : ∀ e ∈ parts.map Prod.fst, WellTyped D e) (hw' : ∀ e ∈ parts.map Prod.snd, WellTyped D e)
    (h : ∀ p ∈ parts, AlikeUpTo kept (Value.Matches exact) D (eval functions ctx p.1)
      (eval functions ctx p.2))
    {last last' : Value} (hlast : last.Matches exact last') :
    AlikeUpTo kept (Value.Matches exact) D (evalLast functions ctx last (parts.map Prod.fst))
      (evalLast functions ctx last' (parts.map Prod.snd)) := by
  induction parts generalizing last last' with
  | nil => exact .pure hlast
  | cons p parts ih =>
    obtain ⟨hp, htail⟩ := List.forall_mem_cons.mp h
    obtain ⟨hpw, htw⟩ := List.forall_mem_cons.mp hw
    obtain ⟨hpw', htw'⟩ := List.forall_mem_cons.mp hw'
    rw [List.map_cons, List.map_cons, evalLast_cons, evalLast_cons]
    exact hp.bind (hpw.keeps_eval hfs) (hpw'.keeps_eval hfs) fun v v' hv _ _ => ih htw htw' htail hv

theorem alike_sequence {parts : List (TypedExpr × TypedExpr)}
    (hw : WellTyped D (.sequence tag (parts.map Prod.fst)))
    (hw' : WellTyped D (.sequence tag' (parts.map Prod.snd)))
    (h : ∀ p ∈ parts, AlikeUpTo kept (Value.Matches exact) D (eval functions ctx p.1)
      (eval functions ctx p.2)) :
    AlikeUpTo kept (Value.Matches exact) D
      (eval functions ctx (.sequence tag (parts.map Prod.fst)))
      (eval functions ctx (.sequence tag' (parts.map Prod.snd))) := by
  cases hw with
  | sequence hss hnote _ =>
    cases hw' with
    | sequence hss' hnote' _ =>
      have hkeeps {es : List TypedExpr} (hes : ∀ e ∈ es, WellTyped D e) :
          Keeps D false (evalLast functions ctx .null es) (·.HasType (lastType es)) := by
        rw [lastType_eq_elim]
        exact keeps_evalLast (.null none) fun e he => (hes e he).keeps_eval hfs
      rw [eval_sequence, eval_sequence]
      refine (alike_evalLast hfs hss hss' h (.refl exact .null)).bind (hkeeps hss) (hkeeps hss') ?_
      intro v v' h hv hv'
      rw [hv.castTo_of_notedAs hnote, hv'.castTo_of_notedAs hnote']
      exact .pure h

end Nodes

/-! ## Literals -/

/-- A sign in front of the absolute value makes the value. -/
theorem alike_negative {v v' w : Literal} {sign : Tag (Option Ty)}
    (hv : v.toValue.Matches exact v'.toValue)
    (happly : UnaryOp.negative.apply w.toValue = .ok v'.toValue)
    (hw : WellTyped D (.literal tag v))
    (hw' : WellTyped D (.unary sign .negative (.literal tag' w))) :
    AlikeUpTo (σ := σ) kept (Value.Matches exact) D (eval functions ctx (.literal tag v))
      (eval functions ctx (.unary sign .negative (.literal tag' w))) := by
  obtain ⟨t, ht, hnote⟩ := hw'.unary_inv
  have hwt := hasType_of_literal hw'.operand
  obtain ⟨z, hz, hzt⟩ := UnaryOp.apply_hasType ht hwt
  rw [happly] at hz
  cases hz
  rw [eval_unary, eval_literal, eval_literal, hwt.castTo_eq, (hasType_of_literal hw).castTo_eq,
    pure_bind, happly]
  change AlikeUpTo kept _ D (pure v.toValue) (pure (v'.toValue.castTo sign.note))
  rw [hzt.castTo_of_notedAs hnote]
  exact .pure hv

/-! ## Every node -/

namespace Echoes

theorem isAssignment_of_plain {e e' : TypedExpr} (h : Echoes e e') (hp : e.Plain) :
    e'.isAssignment = false := by
  cases h with
  | assignment => cases hp
  | _ => rfl

/-- A statement and what it comes back as end alike, and so do their indices where they are
targets. -/
theorem alike_of_statement (hfs : functions.Conform D) {e e' : TypedExpr} (h : Echoes e e')
    (hs : e.Statement) (hw : WellTyped D e) (hw' : WellTyped D e')
    (hsteady : e.steady kept exact = true) :
    AlikeUpTo kept (Value.Matches exact) D (eval functions ctx e) (eval functions ctx e') ∧
      ∀ place, e.target? = some place → AlikeUpTo kept (List.Forall₂ (Value.Matches false)) D
        (evalIndices functions ctx e) (evalIndices functions ctx e') := by
  induction h generalizing exact with
  | @literal tag tag' v v' hread =>
    refine ⟨?_, fun _ h => by cases h⟩
    rw [eval_literal, eval_literal, (hasType_of_literal hw).castTo_eq,
      (hasType_of_literal hw').castTo_eq]
    exact .pure (hread.toValue (steady_literal.mp hsteady))
  | negative hread happly =>
    have hv := hread.toValue (steady_literal.mp hsteady)
    exact ⟨alike_negative hv happly hw hw', fun _ h => by cases h⟩
  | @var tag tag' name =>
    refine ⟨?_, fun _ _ => .pure .nil⟩
    have hnote : tag'.note = tag.note := Echoes.var.type_of_isPlace rfl hw hw'
    rw [eval_var, eval_var, hnote]
    intro w w' hw _ _
    refine (sameEnd_readVariable hw).bind fun _ _ _ _ h _ _ hw => ?_
    exact .ok ((h.mono (steady_var.mp hsteady)).castTo _) hw
  | group _ _ ih =>
    obtain ⟨heval, hindices⟩ := ih hs hw hw'.operand hsteady
    exact ⟨alike_group hfs hw hw' heval, hindices⟩
  | @unary tag tag' op x x' _ ih =>
    cases hs.plain_of_isAssignment rfl with
    | unary hp =>
      obtain ⟨heval, hindices⟩ := ih (.plain hp) hw.operand hw'.operand hsteady
      refine ⟨alike_unary hfs hw hw' heval, fun place hplace => ?_⟩
      cases op with
      | group => exact hindices place hplace
      | positive | negative | not => cases hplace
  | @binary tag tag' op op' l l' r r' hspoken _ _ ihl ihr =>
    refine ⟨?_, fun _ h => by cases h⟩
    obtain ⟨hls, hrs⟩ := steady_binary.mp hsteady
    cases hs.plain_of_isAssignment rfl with
    | binary hlp hrp =>
      have hl := (ihl (.plain hlp) hw.operands.1 hw'.operands.1 hls).1
      have hr := (ihr (.plain hrp) hw.operands.2 hw'.operands.2 hrs).1
      rcases op.propagatesNull_or_connective with hop | ⟨c, rfl⟩
      · exact alike_binary hfs hop hspoken hw hw' hl hr
      · obtain rfl : op' = .connective c := by
          rcases BinaryOp.eq_of_spoken hspoken with h | ⟨h, -⟩ | ⟨h, -⟩
          · exact h
          · cases h
          · cases h
        exact alike_connective hfs hw hw' hl hr
  | @assignment tag tag' x x' v v' hx _ ihx ihv =>
    obtain ⟨hxw, hvw⟩ := hw.target_value
    obtain ⟨hxw', hvw'⟩ := hw'.target_value
    cases hs with
    | plain hp => cases hp
    | assignment hxp hvs =>
      obtain ⟨place, hplace⟩ : ∃ place, x.target? = some place := by
        cases hw with
        | assignment _ _ hplace _ _ => exact ⟨_, hplace⟩
      obtain ⟨root, name, hroot⟩ := Expr.exists_root_of_target? hplace
      obtain ⟨hxs, hvs'⟩ := (steady_assignment hplace hroot).mp hsteady
      obtain ⟨heval, hindices⟩ := ihv hvs hvw hvw' hvs'
      refine ⟨?_, hindices⟩
      exact alike_assignment hfs hplace hroot hw hw' hx hxp.isAssignment
        (hx.isAssignment_of_plain hxp) ((ihx (.plain hxp) hxw hxw' hxs).2 place hplace) heval
  | conditional hbranches _ _ _ ihc ihx ihy =>
    refine ⟨?_, fun _ h => by cases h⟩
    obtain ⟨hcw, hxw, hyw⟩ := hw.condition_branches
    obtain ⟨hcw', hxw', hyw'⟩ := hw'.condition_branches
    obtain ⟨hcs, hxs, hys⟩ := steady_conditional.mp hsteady
    cases hs.plain_of_isAssignment rfl with
    | conditional hcp hxp hyp =>
      exact alike_conditional hfs hbranches hw hw' (ihc (.plain hcp) hcw hcw' hcs).1
        (ihx (.plain hxp) hxw hxw' hxs).1 (ihy (.plain hyp) hyw hyw' hys).1
  | @element tag tag' a a' i i' ha _ iha ihi =>
    obtain ⟨haw, hiw⟩ := hw.array_index
    obtain ⟨haw', hiw'⟩ := hw'.array_index
    obtain ⟨has, his⟩ := steady_element.mp hsteady
    cases hs.plain_of_isAssignment rfl with
    | element hap hip =>
      obtain ⟨haeval, haindices⟩ := iha (.plain hap) haw haw' has
      obtain ⟨hieval, -⟩ := ihi (.plain hip) hiw hiw' his
      refine ⟨alike_element hfs hw hw' haeval hieval, fun place hplace => ?_⟩
      have hisPlace := (Expr.target?_element.mp hplace).1
      have htarget := Expr.target?_of_isPlace hisPlace
      have htarget' := Expr.target?_of_isPlace (ha.isPlace hisPlace).1
      obtain ⟨_, _, _, _, -, -, -, hkeeps⟩ := haw.leadsToPlace hfs ctx a htarget
      obtain ⟨_, _, _, _, -, -, -, hkeeps'⟩ := haw'.leadsToPlace hfs ctx a' htarget'
      rw [evalIndices_element, evalIndices_element]
      refine (haindices a htarget).bind hkeeps hkeeps' fun outer outer' houter _ _ => ?_
      refine hieval.bind (hiw.keeps_eval hfs) (hiw'.keeps_eval hfs) fun index index' h _ _ => ?_
      exact .pure (List.rel_append houter (.cons h .nil))
  | @call tag tag' name parts htypes _ ih =>
    refine ⟨?_, fun _ h => by cases h⟩
    cases hs.plain_of_isAssignment rfl with
    | call hps =>
      refine alike_call hfs htypes hw hw' fun p hp => ?_
      have hfst := List.mem_map_of_mem hp (f := Prod.fst)
      have hsnd := List.mem_map_of_mem hp (f := Prod.snd)
      exact (ih p hp (.plain (hps _ hfst)) (hw.arguments _ hfst) (hw'.arguments _ hsnd)
        (steady_call.mp hsteady _ hfst)).1
  | sequence => cases hs.plain_of_isAssignment rfl

/-- **A program and what it comes back as end alike.** -/
theorem alike (hfs : functions.Conform D) {e e' : TypedExpr} (h : Echoes e e') (hp : e.Program)
    (hw : WellTyped D e) (hw' : WellTyped D e') (hsteady : e.steady kept exact = true) :
    AlikeUpTo kept (Value.Matches exact) D (eval functions ctx e) (eval functions ctx e') := by
  cases hp with
  | statement hs => exact (h.alike_of_statement hfs hs hw hw' hsteady).1
  | @sequence tag ss hss =>
    generalize he : Expr.sequence tag ss = e at h hw hsteady
    induction h with
    | group _ _ ih =>
      subst he
      exact alike_group hfs hw hw' (ih hw'.operand rfl hw hsteady)
    | @sequence tag tag' parts hparts =>
      obtain ⟨rfl, rfl⟩ := Expr.sequence.inj he
      refine alike_sequence hfs hw hw' fun p hp => ?_
      have hfst := List.mem_map_of_mem hp (f := Prod.fst)
      have hsnd := List.mem_map_of_mem hp (f := Prod.snd)
      exact ((hparts p hp).alike_of_statement hfs (hss _ hfst) (hw.statements _ hfst)
        (hw'.statements _ hsnd) (steady_sequence.mp hsteady _ hfst)).1
    | _ => cases he

end Echoes

end TypedExpr

end ComputedField
