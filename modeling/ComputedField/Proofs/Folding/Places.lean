import ComputedField.Proofs.Expr.Places
import ComputedField.Proofs.Folding.Nodes

/-!
# Where folding fails

Folding builds literals and nodes of its own, and gives each of them the token of a node that was
there before. So it keeps the places of a tree, and fails at one of them (`placed_foldIn`).
-/

set_option autoImplicit false

namespace ComputedField

namespace Traced

variable {ε α β : Type} {x : Traced ε α} {f : α → Traced ε β} {P : α → Prop} {Q : β → Prop}
  {E : ε → Prop}

theorem settles_bind (h : Settles x.outcome P E) (hf : ∀ a, P a → Settles (f a).outcome Q E) :
    Settles (x >>= f).outcome Q E := by
  rw [outcome_bind]
  exact h.bind hf

/-- An event that is reported first has no part in it. -/
theorem settles_report {event : Event} {y : Traced ε β} (h : Settles y.outcome Q E) :
    Settles (report event >>= fun _ => y).outcome Q E :=
  settles_bind (P := fun _ => True) trivial fun _ _ => h

end Traced

namespace TypedExpr

open ComputedField.Expr Traced

variable {S : Position → Prop} {ctx : MathContext} {guarded : Bool} {tag : Tag (Option Ty)}
  {token : Token} {l r x y : TypedExpr}

/-! ## New nodes -/

@[simp] theorem placedIn_truthLiteral {value : Option Bool} :
    (truthLiteral value token).PlacedIn S ↔ S token.pos :=
  placedIn_literal

@[simp] theorem placedIn_logicNode {c : Connective} :
    (logicNode c token l r).PlacedIn S ↔ S token.pos ∧ l.PlacedIn S ∧ r.PlacedIn S :=
  placedIn_binary

theorem placedIn_asBoolean : (asBoolean x).PlacedIn S ↔ x.PlacedIn S := by
  unfold asBoolean
  split
  · exact placedIn_withNote
  · rfl

theorem placedIn_foldUnknownLeft {c : Connective} (htoken : S token.pos) (hl : l.PlacedIn S)
    (hr : r.PlacedIn S) : (foldUnknownLeft c token l r).PlacedIn S := by
  unfold foldUnknownLeft
  split
  · simpa
  · simpa
  · exact placedIn_logicNode.mpr ⟨htoken, placedIn_truthLiteral.mpr hl.here, hr⟩

/-- The branch that replaces a conditional stays where it is. -/
theorem placedIn_of_adapted? {type : Option Ty} (h : adapted? x type = some y)
    (hx : x.PlacedIn S) : y.PlacedIn S := by
  rcases adapted?_eq_some h with ⟨rfl, -⟩ | ⟨n, -, -, rfl⟩ | ⟨rfl, -, -⟩
  · exact hx
  · exact placedIn_literal.mpr hx.here
  · exact placedIn_withNote.mpr hx

/-- A constant that fails does so at the place of its operator. -/
theorem placed_constant {result : Except EvalFault Value} (htag : S tag.token.pos) :
    Placed S (constant guarded tag result).outcome fun l? => ∀ e ∈ l?, e.PlacedIn S := by
  unfold constant
  split
  · split
    · exact settles_report (by simpa [Settles])
    · simp [Settles]
  · cases guarded with
    | true => exact settles_report (by simp [Settles])
    | false => exact htag

theorem placed_foldUnary {op : UnaryOp} (htag : S tag.token.pos) (hx : x.PlacedIn S) :
    Placed S (foldUnary guarded tag op x).outcome (PlacedIn S) := by
  have hnode : (Expr.unary tag op x).PlacedIn S := placedIn_unary.mpr ⟨htag, hx⟩
  unfold foldUnary
  split
  · exact hx
  · cases x.literal? with
    | none => exact hnode
    | some v =>
      refine settles_bind (placed_constant htag) fun l? hl? => ?_
      cases l? with
      | none => exact hnode
      | some e => exact hl? e rfl

theorem placed_foldBinary {op : BinaryOp} (htag : S tag.token.pos) (hl : l.PlacedIn S)
    (hr : r.PlacedIn S) : Placed S (foldBinary ctx guarded tag op l r).outcome (PlacedIn S) := by
  have hnode : (Expr.binary tag op l r).PlacedIn S := placedIn_binary.mpr ⟨htag, hl, hr⟩
  unfold foldBinary
  split
  · refine settles_bind (placed_constant htag) fun l? hl? => ?_
    cases l? with
    | none => exact hnode
    | some e => exact hl? e rfl
  · split
    · exact settles_report (placedIn_literal.mpr htag)
    · exact hnode

theorem placed_foldByRight {c : Connective} (htoken : S token.pos) (hl : l.PlacedIn S)
    (hr : r.PlacedIn S) : Placed S (foldByRight c token l r).outcome (PlacedIn S) := by
  have hnode : (logicNode c token l r).PlacedIn S := placedIn_logicNode.mpr ⟨htoken, hl, hr⟩
  unfold foldByRight
  split
  · split
    · exact settles_report (placedIn_truthLiteral.mpr htoken)
    · exact hnode
  · exact settles_report (placedIn_asBoolean.mpr hl)
  · exact placedIn_logicNode.mpr ⟨htoken, hl, placedIn_truthLiteral.mpr hr.here⟩
  · exact hnode

/-! ## The whole tree -/

/-- The rest of a connective, however its left operand has folded. -/
theorem placed_foldRight {c : Connective} (htag : S tag.token.pos) (hl : l.PlacedIn S)
    (hr : ∀ guarded, Placed S (foldIn ctx guarded r).outcome (PlacedIn S)) :
    Placed S (foldRight ctx guarded tag c l r).outcome (PlacedIn S) := by
  unfold foldRight
  split
  · exact settles_report (placedIn_truthLiteral.mpr htag)
  · refine settles_report (settles_bind (hr _) fun r' hr' => ?_)
    exact placedIn_asBoolean.mpr hr'
  · exact settles_bind (hr _) fun r' hr' => placedIn_foldUnknownLeft htag hl hr'
  · exact settles_bind (hr _) fun r' hr' => placed_foldByRight htag hl hr'

/-- The rest of a conditional, however its condition has folded. -/
theorem placed_foldBranches {c : TypedExpr} (htag : S tag.token.pos) (hc : c.PlacedIn S)
    (hx : ∀ guarded, Placed S (foldIn ctx guarded x).outcome (PlacedIn S))
    (hy : ∀ guarded, Placed S (foldIn ctx guarded y).outcome (PlacedIn S)) :
    Placed S (foldBranches ctx guarded tag c x y).outcome (PlacedIn S) := by
  have hnode {x' y' : TypedExpr} (hx' : x'.PlacedIn S) (hy' : y'.PlacedIn S) :
      (Expr.conditional tag c x' y').PlacedIn S := placedIn_conditional.mpr ⟨htag, hc, hx', hy'⟩
  unfold foldBranches
  split
  · exact settles_bind (hx _) fun x' hx' => settles_bind (hy _) fun y' hy' => hnode hx' hy'
  · refine settles_bind (hx _) fun x' hx' => ?_
    split
    · next hadapted => exact settles_report (placedIn_of_adapted? hadapted hx')
    · exact settles_bind (hy _) fun y' hy' => hnode hx' hy'
  · refine settles_bind (hy _) fun y' hy' => ?_
    split
    · next hadapted => exact settles_report (placedIn_of_adapted? hadapted hy')
    · exact settles_bind (hx _) fun x' hx' => hnode hx' hy'

theorem placed_foldAllIn {es : List TypedExpr}
    (h : ∀ e ∈ es, Placed S (foldIn ctx guarded e).outcome (PlacedIn S)) :
    Placed S (foldAllIn ctx guarded es).outcome fun es' => ∀ e ∈ es', e.PlacedIn S := by
  induction es with
  | nil => exact fun e he => absurd he List.not_mem_nil
  | cons e es ih =>
    obtain ⟨he, hes⟩ := List.forall_mem_cons.mp h
    rw [foldAllIn_cons]
    refine settles_bind he fun e' he' => settles_bind (ih hes) fun es' hes' => ?_
    exact List.forall_mem_cons.mpr ⟨he', hes'⟩

theorem placedIn_ofFolded {ss : List TypedExpr} (htag : S tag.token.pos)
    (hss : ∀ s ∈ ss, s.PlacedIn S) : (ofFolded tag ss).PlacedIn S := by
  unfold ofFolded
  split
  · exact hss _ List.mem_cons_self
  · exact placedIn_sequence.mpr ⟨htag, hss⟩

/-- **A tree is folded in its places.** -/
theorem placed_foldIn {e : TypedExpr} (h : e.PlacedIn S) (guarded : Bool) :
    Placed S (foldIn ctx guarded e).outcome (PlacedIn S) := by
  induction e using induct generalizing guarded with
  | literal | var => exact h
  | unary tag op x ih =>
    obtain ⟨htag, hx⟩ := placedIn_unary.mp h
    rw [foldIn_unary]
    exact settles_bind (ih hx guarded) fun x' hx' => placed_foldUnary htag hx'
  | binary tag op l r ihl ihr =>
    obtain ⟨htag, hl, hr⟩ := placedIn_binary.mp h
    rcases op.propagatesNull_or_connective with hop | ⟨c, rfl⟩
    · rw [foldIn_binary hop]
      refine settles_bind (ihl hl guarded) fun l' hl' => ?_
      exact settles_bind (ihr hr guarded) fun r' hr' => placed_foldBinary htag hl' hr'
    · rw [foldIn_connective]
      exact settles_bind (ihl hl guarded) fun l' hl' => placed_foldRight htag hl' (ihr hr)
  | assignment tag x v ihx ihv =>
    obtain ⟨htag, hx, hv⟩ := placedIn_assignment.mp h
    rw [foldIn_assignment]
    refine settles_bind (ihx hx guarded) fun x' hx' => ?_
    refine settles_bind (ihv hv guarded) fun v' hv' => ?_
    exact placedIn_assignment.mpr ⟨htag, hx', hv'⟩
  | conditional tag c x y ihc ihx ihy =>
    obtain ⟨htag, hc, hx, hy⟩ := placedIn_conditional.mp h
    rw [foldIn_conditional]
    exact settles_bind (ihc hc guarded) fun c' hc' => placed_foldBranches htag hc' (ihx hx) (ihy hy)
  | element tag a i iha ihi =>
    obtain ⟨htag, ha, hi⟩ := placedIn_element.mp h
    rw [foldIn_element]
    refine settles_bind (iha ha guarded) fun a' ha' => ?_
    refine settles_bind (ihi hi guarded) fun i' hi' => ?_
    exact placedIn_element.mpr ⟨htag, ha', hi'⟩
  | call tag f as ih =>
    obtain ⟨htag, has⟩ := placedIn_call.mp h
    rw [foldIn_call]
    refine settles_bind (placed_foldAllIn fun a ha => ih a ha (has a ha) guarded) fun as' has' => ?_
    exact placedIn_call.mpr ⟨htag, has'⟩
  | sequence tag ss ih =>
    obtain ⟨htag, hss⟩ := placedIn_sequence.mp h
    rw [foldIn_sequence]
    refine (placed_foldAllIn fun s hs => ih s hs (hss s hs) guarded).bind fun ss' hss' => ?_
    exact placedIn_ofFolded htag hss'

end TypedExpr

end ComputedField
