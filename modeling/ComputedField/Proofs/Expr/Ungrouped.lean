import ComputedField.Proofs.Expr.Parts

/-!
# Trees without their parentheses

`Expr.ungrouped` puts what parentheses hold in their place, wherever they stand. Places stay places,
with the same variable at their root. An assignment to an assignment is told by the node on its left
(`isAssignment`), and there parentheses make a difference: `assignsToGroup` finds them.
-/

set_option autoImplicit false

namespace ComputedField

namespace Expr

variable {α : Type}

mutual

/-- The tree without its parentheses. -/
def ungrouped : Expr α → Expr α
  | literal t v => literal t v
  | var t x => var t x
  | unary t op x => if op = .group then x.ungrouped else unary t op x.ungrouped
  | binary t op l r => binary t op l.ungrouped r.ungrouped
  | assignment t x v => assignment t x.ungrouped v.ungrouped
  | conditional t c x y => conditional t c.ungrouped x.ungrouped y.ungrouped
  | element t a i => element t a.ungrouped i.ungrouped
  | call t f as => call t f (ungroupedAll as)
  | sequence t ss => sequence t (ungroupedAll ss)

def ungroupedAll : List (Expr α) → List (Expr α)
  | [] => []
  | e :: es => e.ungrouped :: ungroupedAll es

end

theorem ungroupedAll_eq_map (es : List (Expr α)) : ungroupedAll es = es.map ungrouped := by
  induction es with
  | nil => rfl
  | cons e es ih =>
    rw [List.map_cons, ← ih]
    rfl

section Nodes

variable (t : Tag α)

theorem ungrouped_group (x : Expr α) : (unary t .group x).ungrouped = x.ungrouped := rfl

theorem ungrouped_unary {op : UnaryOp} (hop : op ≠ .group) (x : Expr α) :
    (unary t op x).ungrouped = unary t op x.ungrouped := by
  cases op with
  | group => exact absurd rfl hop
  | positive | negative | not => rfl

theorem ungrouped_call (f : String) (as : List (Expr α)) :
    (call t f as).ungrouped = call t f (as.map ungrouped) :=
  congrArg (call t f) (ungroupedAll_eq_map as)

theorem ungrouped_sequence (ss : List (Expr α)) :
    (sequence t ss).ungrouped = sequence t (ss.map ungrouped) :=
  congrArg (sequence t) (ungroupedAll_eq_map ss)

end Nodes

/-- No parentheses are left. -/
theorem ne_group_of_mem_parts {e n : Expr α} (hn : n ∈ e.ungrouped.parts) (t : Tag α)
    (x : Expr α) : n ≠ unary t .group x := by
  induction e using induct with
  | unary tag op y ih =>
    by_cases hop : op = .group
    · subst hop
      exact ih hn
    · rw [ungrouped_unary tag hop, parts_eq] at hn
      rcases List.mem_cons.mp hn with rfl | hn
      · exact fun heq => hop (unary.inj heq).2.1
      · exact ih (by simpa [children] using hn)
  | literal | var =>
    rw [List.mem_singleton.mp hn]
    intro heq
    cases heq
  | binary _ _ _ _ ih ih' | assignment _ _ _ ih ih' | element _ _ _ ih ih' =>
    rw [ungrouped, parts_eq] at hn
    rcases List.mem_cons.mp hn with rfl | hn
    · intro heq; cases heq
    · simp only [children, List.flatMap_cons, List.flatMap_nil, List.append_nil,
        List.mem_append] at hn
      exact hn.elim ih ih'
  | conditional _ _ _ _ ih ih' ih'' =>
    rw [ungrouped, parts_eq] at hn
    rcases List.mem_cons.mp hn with rfl | hn
    · intro heq; cases heq
    · simp only [children, List.flatMap_cons, List.flatMap_nil, List.append_nil,
        List.mem_append] at hn
      rcases hn with hn | hn | hn
      · exact ih hn
      · exact ih' hn
      · exact ih'' hn
  | call tag f es ih =>
    rw [ungrouped_call, parts_eq] at hn
    rcases List.mem_cons.mp hn with rfl | hn
    · intro heq; cases heq
    · obtain ⟨c, hc, hn⟩ := List.mem_flatMap.mp hn
      obtain ⟨d, hd, rfl⟩ := List.mem_map.mp hc
      exact ih d hd hn
  | sequence tag es ih =>
    rw [ungrouped_sequence, parts_eq] at hn
    rcases List.mem_cons.mp hn with rfl | hn
    · intro heq; cases heq
    · obtain ⟨c, hc, hn⟩ := List.mem_flatMap.mp hn
      obtain ⟨d, hd, rfl⟩ := List.mem_map.mp hc
      exact ih d hd hn

/-! ## Places -/

theorem isPlace_ungrouped {e : Expr α} (h : e.isPlace = true) : e.ungrouped.isPlace = true := by
  induction e using induct with
  | var => rfl
  | element _ a _ ih _ => exact ih h
  | literal | unary | binary | assignment | conditional | call | sequence => cases h

theorem root?_ungrouped {e : Expr α} {root : Tag α × String} (h : e.root? = some root) :
    e.ungrouped.root? = some root := by
  induction e using induct with
  | var => exact h
  | element _ a _ ih _ => exact ih h
  | literal | unary | binary | assignment | conditional | call | sequence => cases h

/-- The place that is written is the same one. -/
theorem target?_ungrouped {e place : Expr α} (h : e.target? = some place) :
    e.ungrouped.target? = some place.ungrouped := by
  induction e using induct with
  | var =>
    cases h
    rfl
  | element =>
    obtain ⟨harray, rfl⟩ := target?_element.mp h
    exact target?_element.mpr ⟨isPlace_ungrouped harray, rfl⟩
  | unary tag op x ih =>
    cases op with
    | group => exact ih h
    | positive | negative | not => cases h
  | assignment _ _ _ _ ih => exact ih h
  | literal | binary | conditional | call | sequence => cases h

/-! ## Assignments to assignments -/

/-- The node assigns to an assignment in parentheses. -/
def assignsToGroup : Expr α → Bool
  | assignment _ x _ => !x.isAssignment && x.ungrouped.isAssignment
  | _ => false

theorem isAssignment_ungrouped {tag : Tag α} {x v : Expr α}
    (h : (assignment tag x v).assignsToGroup = false) :
    x.ungrouped.isAssignment = x.isAssignment := by
  cases hx : x.isAssignment with
  | true =>
    cases x with
    | assignment => rfl
    | literal | var | unary | binary | conditional | element | call | sequence => cases hx
  | false => simpa [assignsToGroup, hx] using h

theorem Plain.isAssignment_ungrouped {e : Expr α} (h : e.Plain) :
    e.ungrouped.isAssignment = false := by
  induction h with
  | @unary tag op x _ ih =>
    cases op with
    | group => exact ih
    | positive | negative | not => rfl
  | literal | var | binary | conditional | element | call => rfl

/-- In a program an assignment has a place on its left, if perhaps in parentheses. -/
theorem Program.assignsToGroup {e n : Expr α} (h : e.Program) (hn : n ∈ e.parts) :
    n.assignsToGroup = false := by
  have hprogram : n.Program := forall_mem_parts (fun _ => Program.children) h n hn
  cases n with
  | assignment tag x v =>
    have hx : x.Plain := by
      cases hprogram with
      | statement hs =>
        cases hs with
        | plain hp => cases hp
        | assignment hx _ => exact hx
    simp [Expr.assignsToGroup, hx.isAssignment_ungrouped]
  | literal | var | unary | binary | conditional | element | call | sequence => rfl

end Expr

end ComputedField
