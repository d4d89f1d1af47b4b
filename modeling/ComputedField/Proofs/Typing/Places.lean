import ComputedField.Proofs.Expr.Places
import ComputedField.Typing.Check

/-!
# Where checking fails

Checking keeps the places of a tree, and the rule that a node breaks is reported at the place of the
node.
-/

set_option autoImplicit false

namespace ComputedField

namespace RawExpr

open ComputedField.Expr

variable {S : Position → Prop} {D : Declarations}

theorem placed_checkAll {es : List RawExpr} (h : ∀ e ∈ es, Placed S (check D e) (PlacedIn S)) :
    Placed S (checkAll D es) fun ts => ∀ t ∈ ts, t.PlacedIn S := by
  induction es with
  | nil => exact fun t ht => absurd ht List.not_mem_nil
  | cons e es ih =>
    obtain ⟨he, hes⟩ := List.forall_mem_cons.mp h
    refine he.bind fun t ht => (ih hes).bind fun ts hts => ?_
    exact List.forall_mem_cons.mpr ⟨ht, hts⟩

/-- **A tree is checked in its places.** -/
theorem placed_check {e : RawExpr} (h : e.PlacedIn S) : Placed S (check D e) (PlacedIn S) := by
  induction e using induct with
  | literal => exact placedIn_literal.mpr h.here
  | var => exact (placed_report h.here).bind fun _ _ => placedIn_var.mpr h.here
  | unary tag op x ih =>
    obtain ⟨htag, hx⟩ := placedIn_unary.mp h
    refine (ih hx).bind fun x' hx' => (placed_report htag).bind fun _ _ => ?_
    exact placedIn_unary.mpr ⟨htag, hx'⟩
  | binary tag op l r ihl ihr =>
    obtain ⟨htag, hl, hr⟩ := placedIn_binary.mp h
    refine (ihl hl).bind fun l' hl' => (ihr hr).bind fun r' hr' => ?_
    exact (placed_report htag).bind fun _ _ => placedIn_binary.mpr ⟨htag, hl', hr'⟩
  | assignment tag x v ihx ihv =>
    obtain ⟨htag, hx, hv⟩ := placedIn_assignment.mp h
    refine (ihx hx).bind fun x' hx' => (ihv hv).bind fun v' hv' => ?_
    exact (placed_report htag).bind fun _ _ => placedIn_assignment.mpr ⟨htag, hx', hv'⟩
  | conditional tag c x y ihc ihx ihy =>
    obtain ⟨htag, hc, hx, hy⟩ := placedIn_conditional.mp h
    refine (ihc hc).bind fun c' hc' => ?_
    -- the condition is judged before the branches are looked at
    by_cases hboolean : Ty.booleanOrUnknown c'.type = true
    · simp only [hboolean, if_true]
      refine (ihx hx).bind fun x' hx' => (ihy hy).bind fun y' hy' => ?_
      exact (placed_report htag).bind fun _ _ => placedIn_conditional.mpr ⟨htag, hc', hx', hy'⟩
    · simp only [hboolean]
      exact htag
  | element tag a i iha ihi =>
    obtain ⟨htag, ha, hi⟩ := placedIn_element.mp h
    refine (iha ha).bind fun a' ha' => (ihi hi).bind fun i' hi' => ?_
    exact (placed_report htag).bind fun _ _ => placedIn_element.mpr ⟨htag, ha', hi'⟩
  | call tag f as ih =>
    obtain ⟨htag, has⟩ := placedIn_call.mp h
    refine (placed_checkAll fun a ha => ih a ha (has a ha)).bind fun as' has' => ?_
    exact (placed_report htag).bind fun _ _ => placedIn_call.mpr ⟨htag, has'⟩
  | sequence tag ss ih =>
    obtain ⟨htag, hss⟩ := placedIn_sequence.mp h
    refine (placed_checkAll fun s hs => ih s hs (hss s hs)).bind fun ss' hss' => ?_
    exact placedIn_sequence.mpr ⟨htag, hss'⟩

end RawExpr

end ComputedField
