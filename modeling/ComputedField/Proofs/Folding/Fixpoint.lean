import ComputedField.Environment.Library
import ComputedField.Proofs.Folding.Preservation
import ComputedField.Proofs.Typing.CheckShape
import Mathlib

/-!
# What folding leaves

`TypedExpr.Folded` describes the expressions that folding returns: no parentheses, no constant part
but one that fails in a guarded place, no connective that a constant decides, and a conditional with
a constant condition only where it has to widen its branch. Folding returns such expressions
(`folded_of_foldIn`) and leaves them as they are (`Folded.foldIn_eq`), so that a second folding
changes nothing (`fold_fold`).
-/

set_option autoImplicit false

namespace ComputedField

namespace TypedExpr

/-- An operation on constants that folding leaves alone: it fails where evaluation may never come. -/
def Stays (guarded : Bool) (r : Except EvalFault Value) : Prop :=
  guarded = true ∧ ∃ fault, r = .error fault

/-- There is nothing to fold; `guarded` tells whether the place of the expression is. -/
inductive Folded (ctx : MathContext) : Bool → TypedExpr → Prop where
  | literal {guarded : Bool} (tag : Tag (Option Ty)) (v : Literal) :
      Folded ctx guarded (.literal tag v)
  | var {guarded : Bool} (tag : Tag (Option Ty)) (name : String) :
      Folded ctx guarded (.var tag name)
  | unary {guarded : Bool} {tag : Tag (Option Ty)} {op : UnaryOp} {x : TypedExpr} : op ≠ .group →
      Folded ctx guarded x →
      (∀ v, x.literal? = some v → Stays guarded (op.apply v.toValue)) →
      Folded ctx guarded (.unary tag op x)
  | binary {guarded : Bool} {tag : Tag (Option Ty)} {op : BinaryOp} {l r : TypedExpr} :
      op.propagatesNull = true → Folded ctx guarded l → Folded ctx guarded r →
      hasNullOperand l r = false →
      (∀ v w, l.literal? = some v → r.literal? = some w →
        Stays guarded (op.apply ctx v.toValue w.toValue)) →
      Folded ctx guarded (.binary tag op l r)
  /-- Beside null, an operand that decides nothing yet. -/
  | unknownLeft {guarded : Bool} {c : Connective} {token leftToken : Token} {r : TypedExpr} :
      Folded ctx guarded r → role? c r = none →
      Folded ctx guarded (logicNode c token (truthLiteral none leftToken) r)
  /-- The right operand may never be reached. A constant there is one that decides, but for what the
  left operand might do, or null. -/
  | connective {guarded : Bool} {c : Connective} {token : Token} {l r : TypedExpr} :
      Folded ctx guarded l → role? c l = none → Folded ctx true r →
      (role? c r = none ∨ (role? c r = some .determining ∧ l.isPure = false) ∨
        ∃ rightToken, r = truthLiteral none rightToken) →
      Folded ctx guarded (logicNode c token l r)
  | assignment {guarded : Bool} {tag : Tag (Option Ty)} {x v : TypedExpr} :
      Folded ctx guarded x → Folded ctx guarded v → Folded ctx guarded (.assignment tag x v)
  | conditional {guarded : Bool} {tag : Tag (Option Ty)} {c x y : TypedExpr} :
      Folded ctx guarded c → takenBranch? c = none → Folded ctx true x → Folded ctx true y →
      Folded ctx guarded (.conditional tag c x y)
  /-- The branch that is taken has to be widened when it is evaluated. -/
  | widening {guarded : Bool} {tag : Tag (Option Ty)} {c x y : TypedExpr} {taken : Bool} :
      Folded ctx guarded c → takenBranch? c = some taken →
      Folded ctx guarded (if taken then x else y) →
      adapted? (if taken then x else y) tag.note = none →
      Folded ctx true (if taken then y else x) → Folded ctx guarded (.conditional tag c x y)
  | element {guarded : Bool} {tag : Tag (Option Ty)} {a i : TypedExpr} :
      Folded ctx guarded a → Folded ctx guarded i → Folded ctx guarded (.element tag a i)
  | call {guarded : Bool} {tag : Tag (Option Ty)} {f : String} {as : List TypedExpr} :
      (∀ a ∈ as, Folded ctx guarded a) → Folded ctx guarded (.call tag f as)
  | sequence {guarded : Bool} {tag : Tag (Option Ty)} {ss : List TypedExpr} :
      (∀ s ∈ ss, Folded ctx guarded s) → (∀ s, ss ≠ [s]) → Folded ctx guarded (.sequence tag ss)

variable {D : Declarations} {ctx : MathContext} {guarded : Bool} {tag : Tag (Option Ty)}

/-! ## There is nothing to fold -/

theorem constant_of_stays {r : Except EvalFault Value} (h : Stays guarded r) :
    (constant guarded tag r).outcome = .ok none := by
  obtain ⟨rfl, fault, rfl⟩ := h
  rfl

theorem foldUnary_eq_self {op : UnaryOp} {x : TypedExpr} (hop : op ≠ .group)
    (hstays : ∀ v, x.literal? = some v → Stays guarded (op.apply v.toValue)) :
    (foldUnary guarded tag op x).outcome = .ok (.unary tag op x) := by
  unfold foldUnary
  simp only [hop, if_false]
  cases hv : x.literal? with
  | none => rfl
  | some v => simp [constant_of_stays (hstays v hv)]

theorem foldBinary_eq_self {op : BinaryOp} {l r : TypedExpr} (hnull : hasNullOperand l r = false)
    (hstays : ∀ v w, l.literal? = some v → r.literal? = some w →
      Stays guarded (op.apply ctx v.toValue w.toValue)) :
    (foldBinary ctx guarded tag op l r).outcome = .ok (.binary tag op l r) := by
  unfold foldBinary
  split
  · rename_i v w hv hw
    simp [constant_of_stays (hstays v w hv hw)]
  · simp [hnull]

theorem role?_truthLiteral_none (c : Connective) (token : Token) :
    role? c (truthLiteral none token) = some .unknown := rfl

theorem foldUnknownLeft_eq_self {c : Connective} {token leftToken : Token} {r : TypedExpr}
    (hrole : role? c r = none) :
    foldUnknownLeft c token (truthLiteral none leftToken) r =
      logicNode c token (truthLiteral none leftToken) r := by
  unfold foldUnknownLeft
  unfold role? at hrole
  split at hrole
  · cases hrole
  · cases hrole
  · rfl

theorem foldByRight_eq_self {c : Connective} {token : Token} {l r : TypedExpr}
    (h : role? c r = none ∨ (role? c r = some .determining ∧ l.isPure = false) ∨
      ∃ rightToken, r = truthLiteral none rightToken) :
    (foldByRight c token l r).outcome = .ok (logicNode c token l r) := by
  unfold foldByRight
  rcases h with hrole | ⟨hrole, hpure⟩ | ⟨rightToken, rfl⟩
  · rw [hrole]
    rfl
  · simp [hrole, hpure]
  · rw [role?_truthLiteral_none]
    rfl

theorem foldAllIn_eq_self {es : List TypedExpr}
    (h : ∀ e ∈ es, (foldIn ctx guarded e).outcome = .ok e) :
    (foldAllIn ctx guarded es).outcome = .ok es := by
  induction es with
  | nil => rfl
  | cons e es ih =>
    have he := h e List.mem_cons_self
    have hes := ih fun x hx => h x (List.mem_cons_of_mem e hx)
    rw [foldAllIn_cons]
    simp [he, hes]

theorem ofFolded_eq_sequence {ss : List TypedExpr} (h : ∀ s, ss ≠ [s]) :
    ofFolded tag ss = .sequence tag ss := by
  unfold ofFolded
  split
  · rename_i s
    exact absurd rfl (h s)
  · rfl

/-- **Folding leaves a folded expression as it is.** -/
theorem Folded.foldIn_eq {e : TypedExpr} (h : Folded ctx guarded e) :
    (foldIn ctx guarded e).outcome = .ok e := by
  induction h with
  | literal tag v =>
    rw [foldIn_literal]
    rfl
  | var tag name =>
    rw [foldIn_var]
    rfl
  | unary hop _ hstays ih =>
    rw [foldIn_unary, Traced.outcome_bind, ih, ok_bind]
    exact foldUnary_eq_self hop hstays
  | binary hop _ _ hnull hstays ihl ihr =>
    rw [foldIn_binary hop, Traced.outcome_bind, ihl, ok_bind, Traced.outcome_bind, ihr, ok_bind]
    exact foldBinary_eq_self hnull hstays
  | unknownLeft _ hrole ih =>
    rw [logicNode, foldIn_connective, Traced.outcome_bind]
    simp only [truthLiteral, foldIn_literal, Traced.outcome_pure, ok_bind]
    show (foldRight _ _ _ _ (truthLiteral none _) _).outcome = _
    simp only [foldRight, role?_truthLiteral_none, Traced.outcome_bind, ih, ok_bind,
      Traced.outcome_pure, foldUnknownLeft_eq_self hrole]
    rfl
  | connective _ hrole _ hright ihl ihr =>
    rw [logicNode, foldIn_connective, Traced.outcome_bind, ihl, ok_bind]
    simp only [foldRight, hrole, Traced.outcome_bind, ihr, ok_bind]
    exact foldByRight_eq_self hright
  | assignment _ _ ihx ihv =>
    rw [foldIn_assignment]
    simp [ihx, ihv]
  | conditional _ htaken _ _ ihc ihx ihy =>
    rw [foldIn_conditional, Traced.outcome_bind, ihc, ok_bind]
    simp [foldBranches, htaken, ihx, ihy]
  | @widening _ tag c x y taken _ htaken _ hz _ ihc ihtaken ihother =>
    rw [foldIn_conditional, Traced.outcome_bind, ihc, ok_bind, outcome_foldBranches_of_taken htaken,
      ihtaken, ok_bind]
    simp only [hz, ihother, ok_bind]
    cases taken <;> rfl
  | element _ _ iha ihi =>
    rw [foldIn_element]
    simp [iha, ihi]
  | call _ ih =>
    rw [foldIn_call]
    simp [foldAllIn_eq_self ih]
  | sequence _ hsingle ih =>
    rw [foldIn_sequence, foldAllIn_eq_self ih, ok_bind, ofFolded_eq_sequence hsingle]

/-! ## What folding returns -/

/-- Where no type is known, nothing hangs on the note. -/
theorem Folded.withNote {e : TypedExpr} (h : Folded ctx guarded e) (ht : e.type = none)
    (note : Option Ty) : Folded ctx guarded (e.withNote note) := by
  cases h with
  | literal _ v => exact .literal _ v
  | var _ name => exact .var _ name
  | unary hop hx hstays => exact .unary hop hx hstays
  | binary hop hl hr hnull hstays => exact .binary hop hl hr hnull hstays
  -- connectives are truth values
  | unknownLeft | connective => cases ht
  | assignment hx hv => exact .assignment hx hv
  | conditional hc htaken hx hy => exact .conditional hc htaken hx hy
  | @widening _ tag _ _ _ _ _ _ _ hz _ =>
    -- what needs widening is widened to decimals
    obtain ⟨hdecimal, -⟩ := adapted?_eq_none hz
    exact absurd (ht.symm.trans hdecimal) (by simp)
  | element ha hi => exact .element ha hi
  | call has => exact .call has
  | sequence hss hsingle => exact .sequence hss hsingle

theorem folded_truthLiteral (b : Option Bool) (token : Token) :
    Folded ctx guarded (truthLiteral b token) := by
  cases b with
  | none => exact .literal _ _
  | some b => exact .literal _ _

theorem Folded.asBoolean {e : TypedExpr} (h : Folded ctx guarded e) :
    Folded ctx guarded (asBoolean e) := by
  unfold TypedExpr.asBoolean
  by_cases hnone : e.type = none
  · rw [if_pos hnone]
    exact h.withNote hnone _
  · rw [if_neg hnone]
    exact h

theorem Folded.adapted? {branch z : TypedExpr} {t : Option Ty} (h : Folded ctx guarded branch)
    (ht : Ty.Widens branch.type t) (hz : adapted? branch t = some z) : Folded ctx guarded z := by
  rcases eq_of_adapted? ht hz with ⟨rfl, -⟩ | ⟨n, -, -, rfl⟩ | ⟨hnone, rfl⟩
  · exact h
  · exact .literal _ _
  · exact h.withNote hnone t

/-! ## Nodes over folded operands -/

/-- An operation that gives no constant has failed, since no operator makes an array of constants. -/
theorem stays_of_constant {r : Except EvalFault Value} (hr : ∀ w, r = .ok w → w.kind ≠ .array)
    (h : (constant guarded tag r).outcome = .ok none) : Stays guarded r := by
  cases r with
  | error fault =>
    cases guarded with
    | true => exact ⟨rfl, fault, rfl⟩
    | false => cases h
  | ok w =>
    obtain ⟨u, hu⟩ := Value.exists_literal (hr w rfl) tag.note
    simp only [constant, hu] at h
    cases h

theorem folded_foldUnary {op : UnaryOp} {x e' : TypedExpr} (hx : Folded ctx guarded x)
    (h : (foldUnary guarded tag op x).outcome = .ok e') : Folded ctx guarded e' := by
  unfold foldUnary at h
  by_cases hop : op = .group
  · rw [if_pos hop] at h
    cases h
    exact hx
  · cases hv : x.literal? with
    | none =>
      simp only [hop, hv, if_false] at h
      cases h
      exact .unary hop hx fun v hv' => by rw [hv] at hv'; cases hv'
    | some v =>
      simp only [hop, hv, if_false, Traced.outcome_bind] at h
      obtain ⟨folded, hfolded, h⟩ := bind_eq_ok.mp h
      cases folded with
      | none =>
        cases h
        have hstays : Stays guarded (op.apply v.toValue) :=
          stays_of_constant (fun w hw => UnaryOp.kind_apply v.kind_toValue hw) hfolded
        refine .unary hop hx fun v' hv' => ?_
        rw [hv] at hv'
        cases hv'
        exact hstays
      | some e =>
        obtain ⟨_, u, -, -, rfl⟩ := constant_eq_some hfolded
        cases h
        exact .literal tag u

theorem folded_foldBinary {op : BinaryOp} {l r e' : TypedExpr} (hop : op.propagatesNull = true)
    (hl : Folded ctx guarded l) (hr : Folded ctx guarded r)
    (h : (foldBinary ctx guarded tag op l r).outcome = .ok e') : Folded ctx guarded e' := by
  unfold foldBinary at h
  split at h
  · rename_i v w hv hw
    rw [Traced.outcome_bind] at h
    obtain ⟨folded, hfolded, h⟩ := bind_eq_ok.mp h
    cases folded with
    | none =>
      cases h
      have hstays : Stays guarded (op.apply ctx v.toValue w.toValue) :=
        stays_of_constant (fun z hz => BinaryOp.kind_apply hz) hfolded
      refine .binary hop hl hr ?_ fun v' w' hv' hw' => ?_
      · -- an operation on null does not fail
        refine Bool.eq_false_iff.mpr fun hnull => ?_
        obtain ⟨-, fault, hfault⟩ := hstays
        have hoperand : v.toValue.isNull = true ∨ w.toValue.isNull = true := by
          simp only [hasNullOperand, Expr.isNullLiteral, hv, hw, Bool.or_eq_true, Bool.and_eq_true,
            beq_iff_eq, Option.some.injEq] at hnull
          rcases hnull with ⟨rfl, -⟩ | ⟨rfl, -⟩
          · exact .inl rfl
          · exact .inr rfl
        rw [BinaryOp.apply_null hop hoperand] at hfault
        cases hfault
      · rw [hv] at hv'
        rw [hw] at hw'
        cases hv'
        cases hw'
        exact hstays
    | some e =>
      obtain ⟨_, u, -, -, rfl⟩ := constant_eq_some hfolded
      cases h
      exact .literal tag u
  · rename_i hliterals
    split at h
    · cases h
      exact .literal tag .null
    · rename_i hnull
      cases h
      refine .binary hop hl hr ?_ fun v w hv hw => absurd hw (hliterals v w hv)
      simpa [hop] using hnull

theorem folded_foldUnknownLeft {c : Connective} {token : Token} {l r : TypedExpr}
    (hr : Folded ctx guarded r) : Folded ctx guarded (foldUnknownLeft c token l r) := by
  unfold foldUnknownLeft
  split
  · exact folded_truthLiteral _ _
  · exact folded_truthLiteral _ _
  · rename_i hboolean hnull
    refine .unknownLeft hr ?_
    unfold role?
    split
    · rename_i hb
      exact absurd hb (hboolean _)
    · rename_i hn
      exact absurd hn hnull
    · rfl

theorem folded_foldByRight {c : Connective} {token : Token} {l r e' : TypedExpr}
    (hl : Folded ctx guarded l) (hrole : role? c l = none) (hr : Folded ctx true r)
    (h : (foldByRight c token l r).outcome = .ok e') : Folded ctx guarded e' := by
  unfold foldByRight at h
  cases hright : role? c r with
  | none =>
    simp only [hright] at h
    cases h
    exact .connective hl hrole hr (.inl hright)
  | some role =>
    cases role with
    | determining =>
      simp only [hright] at h
      split at h
      · cases h
        exact folded_truthLiteral _ _
      · rename_i hpure
        cases h
        exact .connective hl hrole hr (.inr (.inl ⟨hright, Bool.eq_false_iff.mpr hpure⟩))
    | neutral =>
      simp only [hright] at h
      cases h
      exact hl.asBoolean
    | unknown =>
      simp only [hright] at h
      cases h
      exact .connective hl hrole (folded_truthLiteral none r.token) (.inr (.inr ⟨r.token, rfl⟩))

/-! ## The whole tree -/

theorem folded_foldConnective {c : Connective} {l r e' : TypedExpr}
    (ihl : ∀ {guarded l'}, (foldIn ctx guarded l).outcome = .ok l' → Folded ctx guarded l')
    (ihr : ∀ {guarded r'}, (foldIn ctx guarded r).outcome = .ok r' → Folded ctx guarded r')
    (h : (foldIn ctx guarded (.binary tag (.connective c) l r)).outcome = .ok e') :
    Folded ctx guarded e' := by
  rw [foldIn_connective, Traced.outcome_bind] at h
  obtain ⟨l', hl, h⟩ := bind_eq_ok.mp h
  unfold foldRight at h
  cases hrole : role? c l' with
  | none =>
    simp only [hrole, Traced.outcome_bind] at h
    obtain ⟨r', hr, h⟩ := bind_eq_ok.mp h
    exact folded_foldByRight (ihl hl) hrole (ihr hr) h
  | some role =>
    obtain ⟨t, rfl⟩ := eq_literal_of_role? hrole
    cases role with
    | determining =>
      simp only [hrole] at h
      cases h
      exact folded_truthLiteral _ _
    | neutral =>
      simp only [hrole, Traced.outcome_bind, Traced.outcome_report, ok_bind] at h
      obtain ⟨r', hr, h⟩ := bind_eq_ok.mp h
      cases h
      exact (ihr hr).asBoolean
    | unknown =>
      simp only [hrole, Traced.outcome_bind] at h
      obtain ⟨r', hr, h⟩ := bind_eq_ok.mp h
      cases h
      exact folded_foldUnknownLeft (ihr hr)

theorem folded_foldConditional {c x y e' : TypedExpr}
    (he : WellTyped D (.conditional tag c x y))
    (ihc : ∀ {guarded c'}, (foldIn ctx guarded c).outcome = .ok c' → Folded ctx guarded c')
    (ihx : ∀ {guarded x'}, (foldIn ctx guarded x).outcome = .ok x' → Folded ctx guarded x')
    (ihy : ∀ {guarded y'}, (foldIn ctx guarded y).outcome = .ok y' → Folded ctx guarded y')
    (h : (foldIn ctx guarded (.conditional tag c x y)).outcome = .ok e') :
    Folded ctx guarded e' := by
  rw [foldIn_conditional, Traced.outcome_bind] at h
  obtain ⟨c', hc, h⟩ := bind_eq_ok.mp h
  cases htaken : takenBranch? c' with
  | none =>
    simp only [foldBranches, htaken, Traced.outcome_bind] at h
    obtain ⟨x', hx, h⟩ := bind_eq_ok.mp h
    obtain ⟨y', hy, h⟩ := bind_eq_ok.mp h
    cases h
    exact .conditional (ihc hc) htaken (ihx hx) (ihy hy)
  | some taken =>
    obtain ⟨hbranch, hwidens⟩ := he.branch taken
    rw [outcome_foldBranches_of_taken htaken] at h
    obtain ⟨branch, hfold, h⟩ := bind_eq_ok.mp h
    rw [← (wellTyped_of_foldIn hbranch hfold).2] at hwidens
    have hfolded : Folded ctx guarded branch := by
      cases taken with
      | true => exact ihx hfold
      | false => exact ihy hfold
    cases hz : TypedExpr.adapted? branch tag.note with
    | some z =>
      simp only [hz] at h
      cases h
      exact hfolded.adapted? hwidens hz
    | none =>
      simp only [hz] at h
      obtain ⟨other, hother, h⟩ := bind_eq_ok.mp h
      cases h
      cases taken with
      | true => exact .widening (ihc hc) htaken hfolded hz (ihy hother)
      | false => exact .widening (ihc hc) htaken hfolded hz (ihx hother)

theorem folded_of_foldAllIn {es es' : List TypedExpr} (hes : ∀ e ∈ es, WellTyped D e)
    (ih : ∀ e ∈ es, WellTyped D e → ∀ {guarded e'}, (foldIn ctx guarded e).outcome = .ok e' →
      Folded ctx guarded e')
    (h : (foldAllIn ctx guarded es).outcome = .ok es') : ∀ e' ∈ es', Folded ctx guarded e' := by
  intro e' he'
  obtain ⟨e, he, hfold⟩ := exists_left_of_forall₂ (forall₂_of_foldAllIn h) e' he'
  exact ih e he (hes e he) hfold

/-- **Folding leaves nothing to fold.** -/
theorem folded_of_foldIn {e e' : TypedExpr} (he : WellTyped D e)
    (h : (foldIn ctx guarded e).outcome = .ok e') : Folded ctx guarded e' := by
  induction e using Expr.induct generalizing guarded e' with
  | literal tag v =>
    rw [foldIn_literal] at h
    cases h
    exact .literal tag v
  | var tag name =>
    rw [foldIn_var] at h
    cases h
    exact .var tag name
  | unary tag op x ih =>
    rw [foldIn_unary, Traced.outcome_bind] at h
    obtain ⟨x', hx, h⟩ := bind_eq_ok.mp h
    exact folded_foldUnary (ih he.operand hx) h
  | binary tag op l r ihl ihr =>
    obtain ⟨hlt, hrt⟩ := he.operands
    rcases op.propagatesNull_or_connective with hop | ⟨c, rfl⟩
    · rw [foldIn_binary hop] at h
      simp only [Traced.outcome_bind] at h
      obtain ⟨l', hl, h⟩ := bind_eq_ok.mp h
      obtain ⟨r', hr, h⟩ := bind_eq_ok.mp h
      exact folded_foldBinary hop (ihl hlt hl) (ihr hrt hr) h
    · exact folded_foldConnective (ihl hlt) (ihr hrt) h
  | assignment tag x v ihx ihv =>
    obtain ⟨hxt, hvt⟩ := he.target_value
    rw [foldIn_assignment] at h
    simp only [Traced.outcome_bind] at h
    obtain ⟨x', hx, h⟩ := bind_eq_ok.mp h
    obtain ⟨v', hv, h⟩ := bind_eq_ok.mp h
    cases h
    exact .assignment (ihx hxt hx) (ihv hvt hv)
  | conditional tag c x y ihc ihx ihy =>
    obtain ⟨hct, hxt, hyt⟩ := he.condition_branches
    exact folded_foldConditional he (ihc hct) (ihx hxt) (ihy hyt) h
  | element tag a i iha ihi =>
    obtain ⟨hat, hit⟩ := he.array_index
    rw [foldIn_element] at h
    simp only [Traced.outcome_bind] at h
    obtain ⟨a', ha, h⟩ := bind_eq_ok.mp h
    obtain ⟨i', hi, h⟩ := bind_eq_ok.mp h
    cases h
    exact .element (iha hat ha) (ihi hit hi)
  | call tag f as ih =>
    rw [foldIn_call, Traced.outcome_bind] at h
    obtain ⟨as', has, h⟩ := bind_eq_ok.mp h
    cases h
    exact .call (folded_of_foldAllIn he.arguments (fun a ha h => ih a ha h) has)
  | sequence tag ss ih =>
    rw [foldIn_sequence] at h
    obtain ⟨ss', hss, h⟩ := bind_eq_ok.mp h
    cases h
    have hall := folded_of_foldAllIn he.statements (fun s hs h => ih s hs h) hss
    unfold ofFolded
    split
    · rename_i s
      exact hall s List.mem_cons_self
    · rename_i hsingle
      exact .sequence hall fun s hs => hsingle s hs

/-- **Folding twice is folding once.** Whatever the checker accepts, folding what folding returns
succeeds and returns the same expression, with the same notes. -/
theorem fold_fold {tree : RawExpr} {checked folded : TypedExpr}
    (hcheck : RawExpr.check D tree = .ok checked)
    (hfold : (fold ctx checked).outcome = .ok folded) : (fold ctx folded).outcome = .ok folded :=
  (folded_of_foldIn (RawExpr.wellTyped_of_check hcheck) hfold).foldIn_eq

/-- A constant that fails and stays, a branch that has to be widened and a null beside a connective. -/
theorem fold_fold_widening :
    ∃ tree checked folded,
      RawExpr.check (((Environment.standard (σ := Unit)).declare "n" .integer).declare "flag"
        .boolean).declarations tree = .ok checked ∧
      (fold .standard checked).outcome = .ok folded ∧
      (fold .standard folded).outcome = .ok folded := by
  obtain ⟨checked, hchecked, folded, hfold⟩ : ∃ checked,
      checkText? (((Environment.standard (σ := Unit)).declare "n" .integer).declare "flag"
        .boolean).declarations "flag && null ? 1 / 0 : (true ? n : 2 + 0.5)" = some checked ∧
      ∃ folded, (fold .standard checked).outcome = .ok folded :=
    ⟨_, by cbv, _, by cbv⟩
  obtain ⟨tree, -, hcheck⟩ := checks_iff.mpr hchecked
  exact ⟨tree, checked, folded, hcheck, hfold, fold_fold hcheck hfold⟩

end TypedExpr

end ComputedField
