import ComputedField.Environment.Library
import ComputedField.Proofs.Expr.Tags
import ComputedField.Proofs.Typing.CheckShape
import ComputedField.Proofs.Typing.Forgetting
import Mathlib

/-!
# Annotation

The checker notes types and changes nothing else, but that it turns the addition of strings into
concatenation (`Annotates`). What it returns is checked again without effect: with the types erased,
and concatenation written out where it was found, the same types are found once more
(`check_erased`).
-/

set_option autoImplicit false

namespace ComputedField

/-- One side is known to be a string, and the other is not known to be anything else. -/
def Ty.HasString (l r : Option Ty) : Prop :=
  (l = some string ∧ (r = some string ∨ r = none)) ∨
    (r = some string ∧ (l = some string ∨ l = none))

theorem Ty.joinsStrings_iff {l r : Option Ty} : joinsStrings l r = true ↔ HasString l r := by
  cases l <;> cases r <;> simp [joinsStrings, HasString, stringOrUnknown, knownIs]
  rintro rfl rfl
  exact ⟨rfl, rfl⟩

/-- The rules turn addition into concatenation where there is a string, and keep every other
operator. -/
theorem BinaryOp.chosen_cases {op chosen : BinaryOp} {l r t : Option Ty}
    (h : op.resultType l r = .ok (chosen, t)) :
    (op = .add ∧ chosen = .concat ∧ Ty.HasString l r) ∨
      (chosen = op ∧ ¬ (op = .add ∧ Ty.HasString l r)) := by
  cases rule_of_resultType h with
  | join _ hop hj =>
    obtain rfl | rfl := hop
    · exact .inl ⟨rfl, rfl, Ty.joinsStrings_iff.mp hj⟩
    · exact .inr ⟨rfl, by simp [add]⟩
  | arithmetic op _ hn =>
    refine .inr ⟨rfl, fun hadd => ?_⟩
    have hj := Ty.joinsStrings_iff.mpr hadd.2
    rw [Ty.joinsStrings_of_bothNumeric hn] at hj
    cases hj
  | power | relation | connective => exact .inr ⟨rfl, by simp [add]⟩

namespace Expr

variable {α : Type}

/-- The tree with addition for concatenation, as it is written. -/
def spoken (e : Expr α) : Expr α := e.mapNodes id BinaryOp.spoken

theorem spoken_call (tag : Tag α) (f : String) (as : List (Expr α)) :
    (call tag f as).spoken = .call tag f (as.map spoken) := mapNodes_call _ _ tag f as

theorem spoken_sequence (tag : Tag α) (ss : List (Expr α)) :
    (sequence tag ss).spoken = .sequence tag (ss.map spoken) := mapNodes_sequence _ _ tag ss

end Expr

namespace TypedExpr

/-- The tree without its types. -/
def erased (e : TypedExpr) : RawExpr := e.mapNodes (fun tag => ⟨tag.token, ()⟩) id

theorem erased_call (tag : Tag (Option Ty)) (f : String) (as : List TypedExpr) :
    erased (.call tag f as) = .call ⟨tag.token, ()⟩ f (as.map erased) :=
  Expr.mapNodes_call _ _ tag f as

theorem erased_sequence (tag : Tag (Option Ty)) (ss : List TypedExpr) :
    erased (.sequence tag ss) = .sequence ⟨tag.token, ()⟩ (ss.map erased) :=
  Expr.mapNodes_sequence _ _ tag ss

end TypedExpr

/-- The second tree is the first one with types: the same nodes with the same tokens and names and
the same operators, but that concatenation stands for addition exactly where there is a string. -/
inductive Annotates : RawExpr → TypedExpr → Prop where
  | literal (tag : Tag Unit) (t : Option Ty) (v : Literal) :
      Annotates (.literal tag v) (.literal ⟨tag.token, t⟩ v)
  | var (tag : Tag Unit) (t : Option Ty) (name : String) :
      Annotates (.var tag name) (.var ⟨tag.token, t⟩ name)
  | unary (tag : Tag Unit) (t : Option Ty) (op : UnaryOp) {x : RawExpr} {x' : TypedExpr} :
      Annotates x x' → Annotates (.unary tag op x) (.unary ⟨tag.token, t⟩ op x')
  | binary (tag : Tag Unit) (t : Option Ty) {op : BinaryOp} {l r : RawExpr} {l' r' : TypedExpr} :
      Annotates l l' → Annotates r r' → ¬ (op = .add ∧ Ty.HasString l'.type r'.type) →
      Annotates (.binary tag op l r) (.binary ⟨tag.token, t⟩ op l' r')
  | joined (tag : Tag Unit) (t : Option Ty) {l r : RawExpr} {l' r' : TypedExpr} :
      Annotates l l' → Annotates r r' → Ty.HasString l'.type r'.type →
      Annotates (.binary tag .add l r) (.binary ⟨tag.token, t⟩ .concat l' r')
  | assignment (tag : Tag Unit) (t : Option Ty) {x v : RawExpr} {x' v' : TypedExpr} :
      Annotates x x' → Annotates v v' →
      Annotates (.assignment tag x v) (.assignment ⟨tag.token, t⟩ x' v')
  | conditional (tag : Tag Unit) (t : Option Ty) {c x y : RawExpr} {c' x' y' : TypedExpr} :
      Annotates c c' → Annotates x x' → Annotates y y' →
      Annotates (.conditional tag c x y) (.conditional ⟨tag.token, t⟩ c' x' y')
  | element (tag : Tag Unit) (t : Option Ty) {a i : RawExpr} {a' i' : TypedExpr} :
      Annotates a a' → Annotates i i' →
      Annotates (.element tag a i) (.element ⟨tag.token, t⟩ a' i')
  | call (tag : Tag Unit) (t : Option Ty) (name : String) {as : List RawExpr}
      {as' : List TypedExpr} : List.Forall₂ Annotates as as' →
      Annotates (.call tag name as) (.call ⟨tag.token, t⟩ name as')
  | sequence (tag : Tag Unit) (t : Option Ty) {ss : List RawExpr} {ss' : List TypedExpr} :
      List.Forall₂ Annotates ss ss' →
      Annotates (.sequence tag ss) (.sequence ⟨tag.token, t⟩ ss')

theorem map_spoken_erased {es : List RawExpr} {ts : List TypedExpr}
    (h : List.Forall₂ Annotates es ts)
    (hes : ∀ e ∈ es, ∀ {t}, Annotates e t → t.erased.spoken = e.spoken) :
    (ts.map TypedExpr.erased).map Expr.spoken = es.map Expr.spoken := by
  induction h with
  | nil => rfl
  | @cons e t es ts he _ ih =>
    obtain ⟨hhead, hrest⟩ := List.forall_mem_cons.mp hes
    rw [List.map_cons, List.map_cons, List.map_cons, hhead he, ih hrest]

/-- The erased tree is the annotated one up to concatenation, tokens included. -/
theorem Annotates.spoken_erased {tree : RawExpr} {checked : TypedExpr}
    (h : Annotates tree checked) : checked.erased.spoken = tree.spoken := by
  induction tree using Expr.induct generalizing checked with
  | literal | var =>
    cases h
    rfl
  | unary tag op x ih =>
    cases h with
    | unary _ t _ hx => exact congrArg (Expr.unary tag op) (ih hx)
  | binary tag op l r ihl ihr =>
    cases h with
    | binary _ t hl hr => exact congrArg₂ (Expr.binary tag op.spoken) (ihl hl) (ihr hr)
    | joined _ t hl hr => exact congrArg₂ (Expr.binary tag .add) (ihl hl) (ihr hr)
  | assignment tag x v ihx ihv =>
    cases h with
    | assignment _ t hx hv => exact congrArg₂ (Expr.assignment tag) (ihx hx) (ihv hv)
  | conditional tag c x y ihc ihx ihy =>
    cases h with
    | @conditional _ t _ _ _ c' x' y' hc hx hy =>
      show Expr.conditional tag c'.erased.spoken x'.erased.spoken y'.erased.spoken = _
      rw [ihc hc, ihx hx, ihy hy]
      rfl
  | element tag a i iha ihi =>
    cases h with
    | element _ t ha hi => exact congrArg₂ (Expr.element tag) (iha ha) (ihi hi)
  | call tag f as ih =>
    cases h with
    | call _ t _ has =>
      rw [TypedExpr.erased_call, Expr.spoken_call, Expr.spoken_call, map_spoken_erased has ih]
  | sequence tag ss ih =>
    cases h with
    | sequence _ t hss =>
      rw [TypedExpr.erased_sequence, Expr.spoken_sequence, Expr.spoken_sequence,
        map_spoken_erased hss ih]

namespace RawExpr

open TypedExpr

variable {D : Declarations}

theorem annotates_of_check {tree : RawExpr} {checked : TypedExpr}
    (h : check D tree = .ok checked) : Annotates tree checked := by
  induction tree using Expr.induct generalizing checked with
  | literal tag v =>
    obtain rfl := check_literal_eq_ok h
    exact .literal tag _ v
  | var tag name =>
    obtain ⟨u, -, rfl⟩ := check_var_eq_ok h
    exact .var tag _ name
  | unary tag op x ih =>
    obtain ⟨x', type, hx, -, rfl⟩ := check_unary_eq_ok h
    exact .unary tag type op (ih hx)
  | binary tag op l r ihl ihr =>
    obtain ⟨l', r', chosen, type, hl, hr, htype, rfl⟩ := check_binary_eq_ok h
    obtain ⟨rfl, rfl, hstring⟩ | ⟨rfl, hkept⟩ := BinaryOp.chosen_cases htype
    · exact .joined tag type (ihl hl) (ihr hr) hstring
    · exact .binary tag type (ihl hl) (ihr hr) hkept
  | assignment tag x v ihx ihv =>
    obtain ⟨x', v', place, hx, hv, -, -, rfl⟩ := check_assignment_eq_ok h
    exact .assignment tag _ (ihx hx) (ihv hv)
  | conditional tag c x y ihc ihx ihy =>
    obtain ⟨c', x', y', type, hc, hx, hy, -, -, rfl⟩ := check_conditional_eq_ok h
    exact .conditional tag type (ihc hc) (ihx hx) (ihy hy)
  | element tag a i iha ihi =>
    obtain ⟨a', i', type, ha, hi, -, rfl⟩ := check_element_eq_ok h
    exact .element tag type (iha ha) (ihi hi)
  | call tag f as ih =>
    obtain ⟨as', u, has, -, rfl⟩ := check_call_eq_ok h
    exact .call tag _ f (forall₂_of_checkAll_of_mem has ih)
  | sequence tag ss ih =>
    obtain ⟨ss', hss, rfl⟩ := check_sequence_eq_ok h
    exact .sequence tag _ (forall₂_of_checkAll_of_mem hss ih)

theorem checkAll_map_erased {es : List RawExpr} {ts : List TypedExpr}
    (h : checkAll D es = .ok ts)
    (hes : ∀ e ∈ es, ∀ {t}, check D e = .ok t → check D (erased t) = .ok t) :
    checkAll D (ts.map erased) = .ok ts := by
  refine checkAll_of_forall₂ ?_
  rw [List.forall₂_map_left_iff, List.forall₂_same]
  exact forall_of_checkAll h hes

theorem check_erased_self {tree : RawExpr} {checked : TypedExpr}
    (h : check D tree = .ok checked) : check D (erased checked) = .ok checked := by
  induction tree using Expr.induct generalizing checked with
  | literal tag v =>
    obtain rfl := check_literal_eq_ok h
    exact h
  | var tag name =>
    obtain ⟨u, -, rfl⟩ := check_var_eq_ok h
    exact h
  | unary tag op x ih =>
    obtain ⟨x', type, hx, htype, rfl⟩ := check_unary_eq_ok h
    exact check_unary_of (ih hx) htype
  | binary tag op l r ihl ihr =>
    obtain ⟨l', r', chosen, type, hl, hr, htype, rfl⟩ := check_binary_eq_ok h
    exact check_binary_of (ihl hl) (ihr hr) (BinaryOp.resultType_chosen htype)
  | assignment tag x v ihx ihv =>
    obtain ⟨x', v', place, hx, hv, hplace, ha, rfl⟩ := check_assignment_eq_ok h
    exact check_assignment_of (ihx hx) (ihv hv) hplace ha
  | conditional tag c x y ihc ihx ihy =>
    obtain ⟨c', x', y', type, hc, hx, hy, hb, htype, rfl⟩ := check_conditional_eq_ok h
    exact check_conditional_of (ihc hc) (ihx hx) (ihy hy) hb htype
  | element tag a i iha ihi =>
    obtain ⟨a', i', type, ha, hi, htype, rfl⟩ := check_element_eq_ok h
    exact check_element_of (iha ha) (ihi hi) htype
  | call tag f as ih =>
    obtain ⟨as', u, has, hu, rfl⟩ := check_call_eq_ok h
    rw [erased_call]
    exact check_call_of (checkAll_map_erased has ih) hu
  | sequence tag ss ih =>
    obtain ⟨ss', hss, rfl⟩ := check_sequence_eq_ok h
    rw [erased_sequence]
    exact check_sequence_of (checkAll_map_erased hss ih)

/-- **The checker only annotates, and its answer is checked to itself.** What it returns for a tree
is the tree with types, in which concatenation stands for addition exactly where there is a string
(up to which it is the tree with all its tokens); and with the types erased it is accepted again,
with the same answer. -/
theorem check_erased {tree : RawExpr} {checked : TypedExpr} (h : check D tree = .ok checked) :
    Annotates tree checked ∧ checked.erased.spoken = tree.spoken ∧
      check D checked.erased = .ok checked :=
  ⟨annotates_of_check h, (annotates_of_check h).spoken_erased, check_erased_self h⟩

/-- Of two additions the first one becomes a concatenation, which is found again. -/
theorem check_erased_joined :
    ∃ tree checked, ofText "name + null; 1 + 2.5" = .ok tree ∧
      check ((Environment.standard (σ := Unit)).declare "name" .string).declarations tree =
        .ok checked ∧
      checked.erased.sameShape tree = false ∧ Annotates tree checked ∧
      check ((Environment.standard (σ := Unit)).declare "name" .string).declarations checked.erased =
        .ok checked := by
  obtain ⟨tree, checked, hread, hcheck, hchanged⟩ : ∃ tree checked,
      ofText "name + null; 1 + 2.5" = .ok tree ∧
      check ((Environment.standard (σ := Unit)).declare "name" .string).declarations tree =
        .ok checked ∧
      checked.erased.sameShape tree = false :=
    ⟨_, _, by cbv, by cbv, by cbv⟩
  obtain ⟨hannotates, -, hagain⟩ := check_erased hcheck
  exact ⟨tree, checked, hread, hcheck, hchanged, hannotates, hagain⟩

end RawExpr

end ComputedField
