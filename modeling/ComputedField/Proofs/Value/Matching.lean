import ComputedField.Proofs.Expr.SameShape
import ComputedField.Proofs.Value.Comparison

/-!
# Values that stand for one another

A decimal that is written and read again is the same number, and may have another scale.
`Value.Matches exact` relates a value to one that may stand for it: they are the same, and with
`exact` they also are of the same form. The operators take such values to such values
(`BinaryOp.apply_matches`), and so do the cast and the elements of arrays. What counts the digits of
its operands, a quotient or a power, needs them to be of the same form (`BinaryOp.asksForm`).
-/

set_option autoImplicit false

namespace ComputedField

/-! ## Numbers -/

namespace Decimal

variable (a b : Decimal)

theorem sameNumber_iff_toRat : a.sameNumber b = true ↔ a.toRat = b.toRat := by
  rw [sameNumber, compare_eq_compare_toRat, beq_iff_eq, Std.compare_eq_iff_eq]

theorem toRat_pad (k : ℕ) : (a.pad k).toRat = a.toRat := by
  rw [pad, toRat, toRat, Int.cast_mul, Int.cast_pow, Int.cast_ofNat, ← zpow_natCast, mul_assoc,
    ← ten_zpow_add]
  congr 2
  ring

/-- The sum denotes the sum, also next to a zero. -/
theorem toRat_add : (a.add b).toRat = a.toRat + b.toRat := by
  unfold add
  split
  · next h => rw [toRat_pad, (isZero_iff b).mp h, add_zero]
  · split
    · next h => rw [toRat_pad, (isZero_iff a).mp h, zero_add]
    · rw [toRat, Int.cast_add, intCast_unscaledAt_max, intCast_unscaledAt_max, max_comm b.scale,
        ← add_mul, mul_assoc, ← ten_zpow_add, add_neg_cancel, zpow_zero, mul_one]

theorem toRat_sub : (a.sub b).toRat = a.toRat - b.toRat := by
  rw [sub, toRat, Int.cast_sub, intCast_unscaledAt_max, intCast_unscaledAt_max, max_comm b.scale,
    ← sub_mul, mul_assoc, ← ten_zpow_add, add_neg_cancel, zpow_zero, mul_one]

theorem toRat_neg : a.neg.toRat = -a.toRat := by
  rw [neg, toRat, toRat, Int.cast_neg, neg_mul]

/-- `b` stands for `a`: it is the same number, and with `exact` the same decimal. -/
structure Matches (exact : Bool) (a b : Decimal) : Prop where
  number : b.toRat = a.toRat
  form : exact = true → b = a

theorem Matches.refl (exact : Bool) : Matches exact a a := ⟨rfl, fun _ => rfl⟩

end Decimal

namespace Value

/-- `v'` stands for `v`: it is the same value, and with `exact` it is of the same form. -/
structure Matches (exact : Bool) (v v' : Value) : Prop where
  same : v'.same v = true
  form : exact = true → v' = v

variable {exact : Bool} {v v' a a' b b' : Value}

theorem sameItems_iff {items items' : List Value} : sameItems items' items = true ↔
    List.Forall₂ (fun v v' => v'.same v = true) items items' := by
  induction items generalizing items' with
  | nil => cases items' <;> simp [sameItems]
  | cons v items ih => cases items' <;> simp [sameItems, ih]

namespace Matches

theorem refl (exact : Bool) (v : Value) : Matches exact v v := ⟨v.same_self, fun _ => rfl⟩

theorem mono {exact' : Bool} (h : Matches exact v v') (hle : exact' = true → exact = true) :
    Matches exact' v v' :=
  ⟨h.same, fun he => h.form (hle he)⟩

theorem eq (h : Matches true v v') : v' = v := h.form rfl

theorem decimal {d d' : Decimal} (h : d.Matches exact d') :
    Matches exact (.decimal d) (.decimal d') :=
  ⟨(Decimal.sameNumber_iff_toRat d' d).mpr h.number, fun he => congrArg Value.decimal (h.form he)⟩

theorem array {items items' : List Value} (h : List.Forall₂ (Matches exact) items items') :
    Matches exact (.array items) (.array items') := by
  refine ⟨sameItems_iff.mpr (h.imp fun _ _ h => h.same), fun he => ?_⟩
  have heq : List.Forall₂ Eq items items' := h.imp fun _ _ h => (h.form he).symm
  rw [List.forall₂_eq_eq_eq] at heq
  rw [heq]

/-- The values themselves are the same, or they are decimals or arrays of values that match. -/
inductive View (exact : Bool) : Value → Value → Prop where
  | refl (v : Value) : View exact v v
  | decimal {d d' : Decimal} : d.Matches exact d' → View exact (.decimal d) (.decimal d')
  | array {items items' : List Value} : List.Forall₂ (Matches exact) items items' →
      View exact (.array items) (.array items')

theorem view (h : Matches exact v v') : View exact v v' := by
  obtain ⟨hsame, hform⟩ := h
  cases v <;> cases v' <;> try cases hsame
  case decimal d d' =>
    exact .decimal ⟨(Decimal.sameNumber_iff_toRat d' d).mp hsame,
      fun he => Value.decimal.inj (hform he)⟩
  case array items items' =>
    refine .array ?_
    cases exact with
    | false =>
      exact (sameItems_iff.mp hsame).imp fun _ _ h => ⟨h, fun he => by cases he⟩
    | true =>
      obtain rfl := Value.array.inj (hform rfl)
      exact List.forall₂_same.mpr fun v _ => .refl true v
  case null => exact .refl _
  all_goals
    obtain rfl := eq_of_beq hsame
    exact .refl _

end Matches

end Value

/-! ## Outcomes -/

/-- Both outcomes are values of which `R` holds, or both are failures. -/
inductive SameOutcome {ε α β : Type} (R : α → β → Prop) : Except ε α → Except ε β → Prop where
  | ok {a : α} {b : β} : R a b → SameOutcome R (.ok a) (.ok b)
  | error {e e' : ε} : SameOutcome R (.error e) (.error e')

namespace SameOutcome

variable {ε α β γ δ : Type} {R : α → β → Prop} {S : γ → δ → Prop} {r : Except ε α} {r' : Except ε β}

theorem self {R : α → α → Prop} (hR : ∀ a, R a a) (r : Except ε α) : SameOutcome R r r := by
  cases r with
  | ok a => exact .ok (hR a)
  | error => exact .error

theorem map {f : α → γ} {g : β → δ} (h : SameOutcome R r r') (hf : ∀ a b, R a b → S (f a) (g b)) :
    SameOutcome S (r.map f) (r'.map g) := by
  cases h with
  | ok h => exact .ok (hf _ _ h)
  | error => exact .error

theorem bind {f : α → Except ε γ} {g : β → Except ε δ} (h : SameOutcome R r r')
    (hf : ∀ a b, R a b → SameOutcome S (f a) (g b)) : SameOutcome S (r >>= f) (r' >>= g) := by
  cases h with
  | ok h => exact hf _ _ h
  | error => exact .error

end SameOutcome

/-! ## Operators -/

section Operators

variable {exact : Bool} {v v' a a' b b' : Value} {ctx : MathContext}

namespace Value.Matches

theorem kind_eq (h : Matches exact v v') : v'.kind = v.kind := by
  cases h.view <;> rfl

theorem isNull_eq (h : Matches exact v v') : v'.isNull = v.isNull := by
  cases h.view <;> rfl

theorem isString_eq (h : Matches exact v v') : v'.isString = v.isString := by
  cases h.view <;> rfl

theorem truth (h : Matches exact v v') : SameOutcome Eq v.truth v'.truth := by
  cases h.view with
  | refl => exact .self (fun _ => rfl) _
  | decimal | array => exact .error

theorem concat (ha : Matches exact a a') (hb : Matches exact b b') :
    SameOutcome Eq (a.concat b) (a'.concat b') := by
  cases ha.view with
  | refl =>
    cases hb.view with
    | refl => exact .self (fun _ => rfl) _
    | decimal | array => cases a <;> exact .error
  | decimal | array => exact .error

/-- The order of two values is that of any that stand for them. -/
theorem compare (ha : Matches exact a a') (hb : Matches exact b b') :
    SameOutcome Eq (a.compare b) (a'.compare b') := by
  have hnumbers {m m' n n' : Decimal} (hm : m.Matches exact m') (hn : n.Matches exact n') :
      SameOutcome (ε := EvalFault) Eq (.ok (m.compare n)) (.ok (m'.compare n')) := by
    refine .ok ?_
    rw [Decimal.compare_eq_compare_toRat, Decimal.compare_eq_compare_toRat, hm.number, hn.number]
  cases ha.view with
  | refl =>
    cases hb.view with
    | refl => exact .self (fun _ => rfl) _
    | decimal hn =>
      cases a with
      | integer | decimal => exact hnumbers (.refl _ exact) hn
      | _ => exact .error
    | array => cases a <;> exact .error
  | decimal hm =>
    cases hb.view with
    | refl =>
      cases b with
      | integer | decimal => exact hnumbers hm (.refl _ exact)
      | _ => exact .error
    | decimal hn => exact hnumbers hm hn
    | array => exact .error
  | array => exact .error

end Value.Matches

/-- Whether the operands have to be of the same form, if the result has to be with `exact`: always
where digits are counted, and never where the form is not seen. -/
def BinaryOp.asksForm (exact : Bool) : BinaryOp → Bool
  | arithmetic .divide | arithmetic .power => true
  | arithmetic .modulo | concat | relation _ | connective _ => false
  | arithmetic _ => exact

theorem Arithmetic.onDecimals_matches {op : Arithmetic} {m m' n n' : Decimal}
    (hm : m.Matches (BinaryOp.asksForm exact (.arithmetic op)) m')
    (hn : n.Matches (BinaryOp.asksForm exact (.arithmetic op)) n') :
    SameOutcome (Decimal.Matches exact) (op.onDecimals ctx m n) (op.onDecimals ctx m' n') := by
  have hrounded {x y : Decimal} (hnumber : y.toRat = x.toRat) (hform : exact = true → y = x) :
      (x.round ctx).Matches exact (y.round ctx) := by
    refine ⟨?_, fun he => by rw [hform he]⟩
    rw [Decimal.toRat_round, Decimal.toRat_round, hnumber]
  cases op with
  | add =>
    refine .ok (hrounded ?_ fun he => by rw [hm.form he, hn.form he])
    rw [Decimal.toRat_add, Decimal.toRat_add, hm.number, hn.number]
  | subtract =>
    refine .ok (hrounded ?_ fun he => by rw [hm.form he, hn.form he])
    rw [Decimal.toRat_sub, Decimal.toRat_sub, hm.number, hn.number]
  | multiply =>
    refine .ok (hrounded ?_ fun he => by rw [hm.form he, hn.form he])
    rw [Decimal.toRat_mul, Decimal.toRat_mul, hm.number, hn.number]
  | modulo =>
    -- a remainder is that of the integer parts, which the numbers determine
    simp only [onDecimals, Decimal.truncate_eq_pick, hm.number, hn.number]
    exact .self (.refl · exact) _
  | divide | power =>
    rw [hm.form rfl, hn.form rfl]
    exact .self (.refl · exact) _

/-- Where the count of digits wraps around, a quotient tells `4.0` from `4`. -/
example : Decimal.divide? ⟨UInt64.size - 3, .halfEven, by decide⟩ .one ⟨40, 1⟩ ≠
    Decimal.divide? ⟨UInt64.size - 3, .halfEven, by decide⟩ .one ⟨4, 0⟩ := by
  decide +kernel

theorem Arithmetic.apply_matches {op : Arithmetic}
    (ha : a.Matches (BinaryOp.asksForm exact (.arithmetic op)) a')
    (hb : b.Matches (BinaryOp.asksForm exact (.arithmetic op)) b') :
    SameOutcome (Value.Matches exact) (op.apply ctx a b) (op.apply ctx a' b') := by
  have hnumbers {m m' n n' : Decimal}
      (hm : m.Matches (BinaryOp.asksForm exact (.arithmetic op)) m')
      (hn : n.Matches (BinaryOp.asksForm exact (.arithmetic op)) n') :
      SameOutcome (Value.Matches exact) ((op.onDecimals ctx m n).map .decimal)
        ((op.onDecimals ctx m' n').map .decimal) :=
    (onDecimals_matches hm hn).map fun _ _ h => .decimal h
  cases ha.view with
  | refl =>
    cases hb.view with
    | refl => exact .self (.refl exact) _
    | decimal hn =>
      cases a with
      | integer | decimal => exact hnumbers (.refl _ _) hn
      | _ => exact .error
    | array => cases a <;> exact .error
  | decimal hm =>
    cases hb.view with
    | refl =>
      cases b with
      | integer | decimal => exact hnumbers hm (.refl _ _)
      | _ => exact .error
    | decimal hn => exact hnumbers hm hn
    | array => exact .error
  | array => exact .error

theorem Relation.apply_matches (r : Relation) (ha : a.Matches exact a') (hb : b.Matches exact b') :
    SameOutcome Eq (r.apply a b) (r.apply a' b') := by
  unfold Relation.apply
  rw [ha.kind_eq]
  split
  · exact .error
  · refine (ha.compare hb).bind fun _ _ h => ?_
    rw [h]
    exact .ok rfl

/-- **Operands that stand for others give a result that stands for theirs.** -/
theorem BinaryOp.apply_matches {op : BinaryOp} (ha : a.Matches (op.asksForm exact) a')
    (hb : b.Matches (op.asksForm exact) b') :
    SameOutcome (Value.Matches exact) (op.apply ctx a b) (op.apply ctx a' b') := by
  have hsame {r r' : Except EvalFault Value} (h : SameOutcome Eq r r') :
      SameOutcome (Value.Matches exact) r r' := by
    cases h with
    | ok h => exact .ok (h ▸ .refl exact _)
    | error => exact .error
  unfold BinaryOp.apply
  rw [ha.isNull_eq, hb.isNull_eq]
  split
  · exact .ok (.refl exact _)
  · cases op with
    | arithmetic op =>
      simp only [ha.isString_eq, hb.isString_eq]
      split
      · exact hsame (ha.concat hb)
      · exact Arithmetic.apply_matches ha hb
    | concat => exact hsame (ha.concat hb)
    | relation r => exact hsame (r.apply_matches ha hb)
    | connective c =>
      refine ha.truth.bind fun _ _ h => ?_
      refine hb.truth.bind fun _ _ h' => ?_
      rw [h, h']
      exact .ok (.refl exact _)

theorem UnaryOp.apply_matches {op : UnaryOp} (h : v.Matches exact v') :
    SameOutcome (Value.Matches exact) (op.apply v) (op.apply v') := by
  cases h.view with
  | refl => exact .self (.refl exact) _
  | decimal hd =>
    cases op with
    | group | positive => exact .ok h
    | negative =>
      refine .ok (.decimal ⟨?_, fun he => by rw [hd.form he]⟩)
      rw [Decimal.toRat_neg, Decimal.toRat_neg, hd.number]
    | not => exact .error
  | array =>
    cases op with
    | group => exact .ok h
    | positive | negative | not => exact .error

end Operators

/-! ## The cast -/

namespace Value.Matches

variable {exact : Bool} {v v' : Value}

theorem castTo (h : Matches exact v v') (t : Option Ty) :
    Matches exact (v.castTo t) (v'.castTo t) := by
  -- the cast recurses over the items of an array, so the same is shown of lists beside it
  refine Value.castTo.induct
    (fun v t => ∀ v', Matches exact v v' → Matches exact (v.castTo t) (v'.castTo t))
    (fun items t => ∀ items', List.Forall₂ (Matches exact) items items' →
      List.Forall₂ (Matches exact) (castItems items t) (castItems items' t))
    ?_ ?_ ?_ ?_ ?_ v t v' h
  · intro n v' h
    cases h.view with
    | refl => exact .refl exact _
  · intro items depth ih v' h
    cases h.view with
    | refl => exact .refl exact _
    | array hitems =>
      simp only [Value.castTo]
      exact .array (ih _ hitems)
  · intro v t hinteger harray v' h
    cases h.view with
    | refl => exact .refl exact _
    | decimal =>
      rw [castTo_decimal, castTo_decimal]
      exact h
    | array =>
      have hsame (items : List Value) : (Value.array items).castTo t = .array items := by
        rw [Value.castTo]
        · exact fun _ h => by cases h
        · exact fun _ depth _ => harray _ depth rfl
      rw [hsame, hsame]
      exact h
  · intro t items' h
    cases h
    exact .nil
  · intro v vs t ih ihs items' h
    cases h with
    | cons hv hvs => exact .cons (ih _ hv) (ihs _ hvs)

/-! ## Elements -/

variable {array array' index index' : Value}

theorem position? (h : Matches exact index index') (length : Nat) :
    SameOutcome Eq (index.position? length) (index'.position? length) := by
  cases h.view with
  | refl => exact .self (fun _ => rfl) _
  | decimal | array => exact .error

/-- The items at one place stand for one another; where there are none there is null. -/
theorem item {items items' : List Value} (h : List.Forall₂ (Matches exact) items items') (i : Nat) :
    Matches exact (items[i]?.getD .null) (items'[i]?.getD .null) := by
  induction h generalizing i with
  | nil => exact .refl exact _
  | cons hv _ ih =>
    cases i with
    | zero => exact hv
    | succ i => exact ih i

theorem set {items items' : List Value} (h : List.Forall₂ (Matches exact) items items') (i : Nat)
    (hv : Matches exact v v') : List.Forall₂ (Matches exact) (items.set i v) (items'.set i v') := by
  induction h generalizing i with
  | nil => exact .nil
  | cons hw hrest ih =>
    cases i with
    | zero => exact .cons hv hrest
    | succ i => exact .cons hw (ih i)

/-- An index counts and has no form of its own. -/
theorem element {indexExact : Bool} (ha : Matches exact array array')
    (hi : Matches indexExact index index') :
    SameOutcome (Matches exact) (array.element index) (array'.element index') := by
  have hitems {items items' : List Value} (h : List.Forall₂ (Matches exact) items items') :
      SameOutcome (Matches exact) ((Value.array items).element index)
        ((Value.array items').element index') := by
    simp only [Value.element, h.length_eq]
    refine (hi.position? _).bind fun place _ hplace => ?_
    subst hplace
    cases place with
    | none => exact .ok (.refl exact _)
    | some i => exact .ok (item h i)
  cases ha.view with
  | refl =>
    cases array with
    | array items => exact hitems (List.forall₂_same.mpr fun v _ => .refl exact v)
    | null => exact .ok (.refl exact _)
    | _ => exact .error
  | decimal => exact .error
  | array h => exact hitems h

theorem setElement {slot slot' : Value} {indices indices' : List Value} {indexExact : Bool}
    (hslot : Matches exact slot slot')
    (hindices : List.Forall₂ (Matches indexExact) indices indices') (hv : Matches exact v v') :
    SameOutcome (Option.Rel (Matches exact)) (slot.setElement indices v)
      (slot'.setElement indices' v') := by
  induction hindices generalizing slot slot' with
  | nil => exact .ok (.some hv)
  | @cons index index' rest rest' hi _ ih =>
    have hitems {items items' : List Value} (h : List.Forall₂ (Matches exact) items items') :
        SameOutcome (Option.Rel (Matches exact)) ((Value.array items).setElement (index :: rest) v)
          ((Value.array items').setElement (index' :: rest') v') := by
      simp only [Value.setElement, h.length_eq]
      refine (hi.position? _).bind fun place _ hplace => ?_
      subst hplace
      cases place with
      | none => exact .ok .none
      | some i =>
        refine (ih (item h i)).bind fun inner inner' hinner => ?_
        cases hinner with
        | none => exact .ok .none
        | some hw => exact .ok (.some (.array (set h i hw)))
    cases hslot.view with
    | refl =>
      cases slot with
      | array items => exact hitems (List.forall₂_same.mpr fun v _ => .refl exact v)
      | null => exact .ok .none
      | _ => exact .error
    | decimal => exact .error
    | array h => exact hitems h

end Value.Matches

end ComputedField
