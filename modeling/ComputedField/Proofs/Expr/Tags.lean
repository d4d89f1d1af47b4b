import ComputedField.Proofs.Expr.Shape

/-!
# Trees up to their tags

`Expr.mapNodes` changes the tags of a tree and the operators of its binary nodes and keeps all else.
`Expr.bare` is what is left of a tree without its tokens and notes: two trees with the same bare
form differ in nothing but these.
-/

set_option autoImplicit false

namespace ComputedField

namespace Expr

variable {α β γ : Type}

mutual

/-- The same tree with `f` applied to every tag and `g` to every binary operator. -/
def mapNodes (f : Tag α → Tag β) (g : BinaryOp → BinaryOp) : Expr α → Expr β
  | literal t v => literal (f t) v
  | var t x => var (f t) x
  | unary t op x => unary (f t) op (x.mapNodes f g)
  | binary t op l r => binary (f t) (g op) (l.mapNodes f g) (r.mapNodes f g)
  | assignment t x v => assignment (f t) (x.mapNodes f g) (v.mapNodes f g)
  | conditional t c x y =>
    conditional (f t) (c.mapNodes f g) (x.mapNodes f g) (y.mapNodes f g)
  | element t a i => element (f t) (a.mapNodes f g) (i.mapNodes f g)
  | call t x as => call (f t) x (mapAllNodes f g as)
  | sequence t ss => sequence (f t) (mapAllNodes f g ss)

def mapAllNodes (f : Tag α → Tag β) (g : BinaryOp → BinaryOp) : List (Expr α) → List (Expr β)
  | [] => []
  | e :: es => e.mapNodes f g :: mapAllNodes f g es

end

section Nodes

variable (f : Tag α → Tag β) (g : BinaryOp → BinaryOp) (t : Tag α)

theorem mapAllNodes_eq_map (es : List (Expr α)) : mapAllNodes f g es = es.map (mapNodes f g) := by
  induction es with
  | nil => rfl
  | cons e es ih =>
    rw [List.map_cons, ← ih]
    rfl

@[simp] theorem mapNodes_literal (v : Literal) :
    (literal t v).mapNodes f g = literal (f t) v := rfl

@[simp] theorem mapNodes_var (x : String) : (var t x).mapNodes f g = var (f t) x := rfl

@[simp] theorem mapNodes_unary (op : UnaryOp) (x : Expr α) :
    (unary t op x).mapNodes f g = unary (f t) op (x.mapNodes f g) := rfl

@[simp] theorem mapNodes_binary (op : BinaryOp) (l r : Expr α) :
    (binary t op l r).mapNodes f g = binary (f t) (g op) (l.mapNodes f g) (r.mapNodes f g) := rfl

@[simp] theorem mapNodes_assignment (x v : Expr α) :
    (assignment t x v).mapNodes f g = assignment (f t) (x.mapNodes f g) (v.mapNodes f g) := rfl

@[simp] theorem mapNodes_conditional (c x y : Expr α) :
    (conditional t c x y).mapNodes f g =
      conditional (f t) (c.mapNodes f g) (x.mapNodes f g) (y.mapNodes f g) := rfl

@[simp] theorem mapNodes_element (a i : Expr α) :
    (element t a i).mapNodes f g = element (f t) (a.mapNodes f g) (i.mapNodes f g) := rfl

@[simp] theorem mapNodes_call (x : String) (as : List (Expr α)) :
    (call t x as).mapNodes f g = call (f t) x (as.map (mapNodes f g)) :=
  congrArg (call (f t) x) (mapAllNodes_eq_map f g as)

@[simp] theorem mapNodes_sequence (ss : List (Expr α)) :
    (sequence t ss).mapNodes f g = sequence (f t) (ss.map (mapNodes f g)) :=
  congrArg (sequence (f t)) (mapAllNodes_eq_map f g ss)

end Nodes

/-- One change of the nodes after another is one change. -/
theorem mapNodes_mapNodes (f : Tag α → Tag β) (g : BinaryOp → BinaryOp) (f' : Tag β → Tag γ)
    (g' : BinaryOp → BinaryOp) (e : Expr α) :
    (e.mapNodes f g).mapNodes f' g' = e.mapNodes (f' ∘ f) (g' ∘ g) := by
  induction e using Expr.induct with
  | literal | var => rfl
  | unary tag op x ih => simp [ih]
  | binary tag op l r ihl ihr => simp [ihl, ihr]
  | assignment tag x v ihx ihv => simp [ihx, ihv]
  | conditional tag c x y ihc ihx ihy => simp [ihc, ihx, ihy]
  | element tag a i iha ihi => simp [iha, ihi]
  | call tag f as ih => simpa using ih
  | sequence tag ss ih => simpa using ih

/-- The tree without its tokens and notes. -/
def bare (e : Expr α) : RawExpr := e.mapNodes (fun _ => default) id

theorem bare_binary (tag : Tag α) (op : BinaryOp) (l r : Expr α) :
    (binary tag op l r).bare = .binary default op l.bare r.bare := rfl

theorem bare_conditional (tag : Tag α) (c x y : Expr α) :
    (conditional tag c x y).bare = .conditional default c.bare x.bare y.bare := rfl

theorem bare_call (tag : Tag α) (f : String) (as : List (Expr α)) :
    (call tag f as).bare = .call default f (as.map bare) := mapNodes_call _ _ tag f as

theorem bare_sequence (tag : Tag α) (ss : List (Expr α)) :
    (sequence tag ss).bare = .sequence default (ss.map bare) := mapNodes_sequence _ _ tag ss

/-! ## Trees of a given bare form -/

section BareForms

variable {e : Expr α} {v x l r c y a i : RawExpr} {name : String} {es : List RawExpr}

theorem eq_literal_of_bare {v : Literal} (h : e.bare = .literal default v) :
    ∃ tag, e = .literal tag v := by
  cases e with
  | literal tag w =>
    obtain ⟨-, rfl⟩ := literal.inj h
    exact ⟨tag, rfl⟩
  | _ => cases h

theorem eq_var_of_bare (h : e.bare = .var default name) : ∃ tag, e = .var tag name := by
  cases e with
  | var tag y =>
    obtain ⟨-, rfl⟩ := var.inj h
    exact ⟨tag, rfl⟩
  | _ => cases h

theorem eq_unary_of_bare {op : UnaryOp} (h : e.bare = .unary default op x) :
    ∃ tag x', e = .unary tag op x' ∧ x'.bare = x := by
  cases e with
  | unary tag o x' =>
    obtain ⟨-, rfl, hx⟩ := unary.inj h
    exact ⟨tag, x', rfl, hx⟩
  | _ => cases h

theorem eq_binary_of_bare {op : BinaryOp} (h : e.bare = .binary default op l r) :
    ∃ tag l' r', e = .binary tag op l' r' ∧ l'.bare = l ∧ r'.bare = r := by
  cases e with
  | binary tag o l' r' =>
    obtain ⟨-, rfl, hl, hr⟩ := binary.inj h
    exact ⟨tag, l', r', rfl, hl, hr⟩
  | _ => cases h

theorem eq_assignment_of_bare (h : e.bare = .assignment default x v) :
    ∃ tag x' v', e = .assignment tag x' v' ∧ x'.bare = x ∧ v'.bare = v := by
  cases e with
  | assignment tag x' v' =>
    obtain ⟨-, hx, hv⟩ := assignment.inj h
    exact ⟨tag, x', v', rfl, hx, hv⟩
  | _ => cases h

theorem eq_conditional_of_bare (h : e.bare = .conditional default c x y) :
    ∃ tag c' x' y', e = .conditional tag c' x' y' ∧ c'.bare = c ∧ x'.bare = x ∧ y'.bare = y := by
  cases e with
  | conditional tag c' x' y' =>
    obtain ⟨-, hc, hx, hy⟩ := conditional.inj h
    exact ⟨tag, c', x', y', rfl, hc, hx, hy⟩
  | _ => cases h

theorem eq_element_of_bare (h : e.bare = .element default a i) :
    ∃ tag a' i', e = .element tag a' i' ∧ a'.bare = a ∧ i'.bare = i := by
  cases e with
  | element tag a' i' =>
    obtain ⟨-, ha, hi⟩ := element.inj h
    exact ⟨tag, a', i', rfl, ha, hi⟩
  | _ => cases h

theorem eq_call_of_bare (h : e.bare = .call default name es) :
    ∃ tag es', e = .call tag name es' ∧ es'.map bare = es := by
  cases e with
  | call tag f es' =>
    rw [bare_call] at h
    obtain ⟨-, rfl, hes⟩ := call.inj h
    exact ⟨tag, es', rfl, hes⟩
  | _ => cases h

theorem eq_sequence_of_bare (h : e.bare = .sequence default es) :
    ∃ tag es', e = .sequence tag es' ∧ es'.map bare = es := by
  cases e with
  | sequence tag es' =>
    rw [bare_sequence] at h
    obtain ⟨-, hes⟩ := sequence.inj h
    exact ⟨tag, es', rfl, hes⟩
  | _ => cases h

end BareForms

end Expr

end ComputedField
