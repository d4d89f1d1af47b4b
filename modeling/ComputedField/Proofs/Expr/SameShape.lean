import ComputedField.Proofs.Decimal.Notation
import ComputedField.Proofs.Expr.Tags

/-!
# Trees of the same shape

Trees that differ in tokens and notes only have the same shape, and lists of trees have it member by
member.
-/

set_option autoImplicit false

namespace ComputedField

mutual

theorem Value.same_self (v : Value) : v.same v = true := by
  cases v with
  | decimal d => exact d.sameNumber_self
  | array items => exact Value.sameItems_self items
  | null => rfl
  | boolean | integer | string | date => exact beq_self_eq_true _
termination_by structural v

theorem Value.sameItems_self (vs : List Value) : Value.sameItems vs vs = true := by
  cases vs with
  | nil => rfl
  | cons v vs => exact (Bool.and_eq_true _ _).mpr ⟨Value.same_self v, Value.sameItems_self vs⟩
termination_by structural vs

end

theorem Literal.same_self (v : Literal) : v.same v = true := v.toValue.same_self

namespace Expr

variable {α β : Type}

theorem sameShapes_of_bare {as : List (Expr α)} {bs : List (Expr β)}
    (ih : ∀ a ∈ as, ∀ b : Expr β, a.bare = b.bare → a.sameShape b = true)
    (h : as.map bare = bs.map bare) : sameShapes as bs = true := by
  induction as generalizing bs with
  | nil =>
    obtain rfl := List.map_eq_nil_iff.mp h.symm
    rfl
  | cons a as iha =>
    obtain ⟨b, bs, rfl, hb, hbs⟩ := List.map_eq_cons_iff.mp h.symm
    rw [sameShapes, ih a List.mem_cons_self b hb.symm,
      iha (fun a' ha' => ih a' (List.mem_cons_of_mem a ha')) hbs.symm]
    rfl

theorem sameShapes_map {γ : Type} {f : γ → Expr α} {g : γ → Expr β} {cs : List γ}
    (h : ∀ c ∈ cs, (f c).sameShape (g c) = true) : sameShapes (cs.map f) (cs.map g) = true := by
  induction cs with
  | nil => rfl
  | cons c cs ih =>
    rw [List.map_cons, List.map_cons, sameShapes, h c List.mem_cons_self,
      ih fun c' hc' => h c' (List.mem_cons_of_mem c hc')]
    rfl

/-- Trees that differ in tokens and notes only have the same shape. -/
theorem sameShape_of_bare {a : Expr α} {b : Expr β} (h : a.bare = b.bare) :
    a.sameShape b = true := by
  induction a using Expr.induct generalizing b with
  | literal tag v =>
    obtain ⟨tag', rfl⟩ := eq_literal_of_bare h.symm
    exact v.same_self
  | var tag x =>
    obtain ⟨tag', rfl⟩ := eq_var_of_bare h.symm
    exact beq_self_eq_true x
  | unary tag op x ih =>
    obtain ⟨tag', x', rfl, hx⟩ := eq_unary_of_bare h.symm
    rw [sameShape, ih hx.symm, beq_self_eq_true]
    rfl
  | binary tag op l r ihl ihr =>
    obtain ⟨tag', l', r', rfl, hl, hr⟩ := eq_binary_of_bare (h.symm.trans (bare_binary tag op l r))
    rw [sameShape, ihl hl.symm, ihr hr.symm, beq_self_eq_true]
    rfl
  | assignment tag x v ihx ihv =>
    obtain ⟨tag', x', v', rfl, hx, hv⟩ := eq_assignment_of_bare h.symm
    rw [sameShape, ihx hx.symm, ihv hv.symm]
    rfl
  | conditional tag c x y ihc ihx ihy =>
    obtain ⟨tag', c', x', y', rfl, hc, hx, hy⟩ := eq_conditional_of_bare h.symm
    rw [sameShape, ihc hc.symm, ihx hx.symm, ihy hy.symm]
    rfl
  | element tag a i iha ihi =>
    obtain ⟨tag', a', i', rfl, ha, hi⟩ := eq_element_of_bare h.symm
    rw [sameShape, iha ha.symm, ihi hi.symm]
    rfl
  | call tag f as ih =>
    obtain ⟨tag', bs, rfl, hbs⟩ := eq_call_of_bare (h.symm.trans (bare_call tag f as))
    rw [sameShape, sameShapes_of_bare (fun a ha b => ih a ha) hbs.symm, beq_self_eq_true]
    rfl
  | sequence tag ss ih =>
    obtain ⟨tag', ts, rfl, hts⟩ := eq_sequence_of_bare (h.symm.trans (bare_sequence tag ss))
    exact sameShapes_of_bare (fun s hs t => ih s hs) hts.symm

end Expr

end ComputedField
