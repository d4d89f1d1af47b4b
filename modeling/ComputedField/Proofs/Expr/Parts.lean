import ComputedField.Proofs.Expr.Shape

/-!
# The variables of an expression

Which variables a tree names, and which its assignments write: the roots of the places that they
lead to. Both are read off the nodes of the tree; a node adds its own to those of its children
(`parts_eq`).
-/

set_option autoImplicit false

namespace ComputedField

namespace Expr

variable {α : Type}

/-- The nodes of the tree, the tree itself first. -/
def parts (e : Expr α) : List (Expr α) := e.nodes.map Prod.snd

/-- The nodes directly below. -/
def children : Expr α → List (Expr α)
  | literal .. | var .. => []
  | unary _ _ x => [x]
  | binary _ _ l r => [l, r]
  | assignment _ x v => [x, v]
  | conditional _ c x y => [c, x, y]
  | element _ a i => [a, i]
  | call _ _ as => as
  | sequence _ ss => ss

/-- The variable that a node is. -/
def variableName? : Expr α → Option String
  | var _ x => some x
  | _ => none

/-- The variable that a node writes. -/
def assignedName? : Expr α → Option String
  | assignment _ x _ => x.target?.bind fun place => place.root?.map Prod.snd
  | _ => none

/-- The names of all variables in the tree. -/
def variableNames (e : Expr α) : List String := e.parts.filterMap variableName?

/-- The names of the variables that the assignments in the tree write. -/
def assignedNames (e : Expr α) : List String := e.parts.filterMap assignedName?

/-- The place that an assignment writes has a variable at its root. -/
theorem exists_root_of_target? {e place : Expr α} (h : e.target? = some place) :
    ∃ tag name, place.root? = some (tag, name) := by
  have hplace : place.isPlace = true := by
    induction e using induct with
    | var =>
      cases h
      rfl
    | element =>
      obtain ⟨harray, rfl⟩ := target?_element.mp h
      exact harray
    | unary tag op x ih =>
      cases op with
      | group => exact ih h
      | positive | negative | not => cases h
    | assignment _ _ _ _ ih => exact ih h
    | literal | binary | conditional | call | sequence => cases h
  rw [← isSome_root?, Option.isSome_iff_exists] at hplace
  obtain ⟨⟨tag, name⟩, hroot⟩ := hplace
  exact ⟨tag, name, hroot⟩

/-! ## Nodes and their children -/

/-- Induction over expressions, the same step at every node. -/
theorem induct_children {motive : Expr α → Prop}
    (step : ∀ e, (∀ c ∈ e.children, motive c) → motive e) : ∀ e, motive e := by
  intro e
  induction e using induct with
  | literal | var => exact step _ (by simp [children])
  | unary _ _ _ ih => exact step _ (by simpa [children] using ih)
  | binary _ _ _ _ ih ih' | assignment _ _ _ ih ih' | element _ _ _ ih ih' =>
    exact step _ (by simpa [children] using ⟨ih, ih'⟩)
  | conditional _ _ _ _ ih ih' ih'' => exact step _ (by simpa [children] using ⟨ih, ih', ih''⟩)
  | call _ _ _ ih | sequence _ _ ih => exact step _ ih

theorem nodesFrom_eq (e : Expr α) (depth : Nat) :
    e.nodesFrom depth = (depth, e) :: listNodesFrom (depth + 1) e.children := by
  cases e <;> simp [nodesFrom, children, listNodesFrom]

theorem map_listNodesFrom (es : List (Expr α)) (depth : Nat) :
    (listNodesFrom depth es).map Prod.snd =
      es.flatMap fun e => (e.nodesFrom depth).map Prod.snd := by
  induction es with
  | nil => rfl
  | cons e es ih => rw [listNodesFrom, List.map_append, ih, List.flatMap_cons]

/-- Depths may be counted from anywhere. -/
theorem map_nodesFrom_congr (e : Expr α) (depth depth' : Nat) :
    (e.nodesFrom depth).map Prod.snd = (e.nodesFrom depth').map Prod.snd := by
  induction e using induct_children generalizing depth depth' with
  | step e ih =>
    rw [nodesFrom_eq, nodesFrom_eq, List.map_cons, List.map_cons, map_listNodesFrom,
      map_listNodesFrom, List.flatMap_congr fun c hc => ih c hc (depth + 1) (depth' + 1)]

theorem parts_eq (e : Expr α) : e.parts = e :: e.children.flatMap parts := by
  rw [parts, nodes, nodesFrom_eq, List.map_cons, map_listNodesFrom,
    List.flatMap_congr fun c _ => map_nodesFrom_congr c (0 + 1) 0]
  rfl

theorem self_mem_parts (e : Expr α) : e ∈ e.parts := by
  rw [parts_eq]
  exact List.mem_cons_self

theorem parts_subset_of_child {e c : Expr α} (hc : c ∈ e.children) : c.parts ⊆ e.parts := by
  intro n hn
  rw [parts_eq]
  exact List.mem_cons_of_mem _ (List.mem_flatMap.mpr ⟨c, hc, hn⟩)

/-- What holds of all parts holds of those of a child. -/
theorem forall_parts_child {P : Expr α → Prop} {e c : Expr α} (h : ∀ n ∈ e.parts, P n)
    (hc : c ∈ e.children) : ∀ n ∈ c.parts, P n :=
  fun n hn => h n (parts_subset_of_child hc hn)

/-- The parts of a part are parts. -/
theorem parts_subset {e n : Expr α} (hn : n ∈ e.parts) : n.parts ⊆ e.parts := by
  induction e using induct_children with
  | step e ih =>
    rw [parts_eq] at hn
    rcases List.mem_cons.mp hn with rfl | hn
    · exact List.Subset.refl _
    · obtain ⟨c, hc, hn⟩ := List.mem_flatMap.mp hn
      exact List.Subset.trans (ih c hc hn) (parts_subset_of_child hc)

/-- What passes from a node to its children holds of all parts. -/
theorem forall_mem_parts {P : Expr α → Prop} (h : ∀ e, P e → ∀ c ∈ e.children, P c) {e : Expr α}
    (he : P e) : ∀ n ∈ e.parts, P n := by
  induction e using induct_children with
  | step e ih =>
    intro n hn
    rw [parts_eq] at hn
    rcases List.mem_cons.mp hn with rfl | hn
    · exact he
    · obtain ⟨c, hc, hn⟩ := List.mem_flatMap.mp hn
      exact ih c hc (h e he c hc) n hn

theorem Plain.children {e : Expr α} (h : e.Plain) : ∀ c ∈ e.children, c.Plain := by
  cases h with
  | literal | var => simp [Expr.children]
  | unary hx => simpa [Expr.children] using hx
  | binary hx hy | element hx hy => simpa [Expr.children] using ⟨hx, hy⟩
  | conditional hc hx hy => simpa [Expr.children] using ⟨hc, hx, hy⟩
  | call has => exact has

theorem Program.children {e : Expr α} (h : e.Program) : ∀ c ∈ e.children, c.Program := by
  cases h with
  | sequence hss => exact fun s hs => .statement (hss s hs)
  | statement hs =>
    cases hs with
    | plain hp => exact fun c hc => .statement (.plain (hp.children c hc))
    | assignment hx hv => simpa [Expr.children] using ⟨.statement (.plain hx), .statement hv⟩

/-- The parts of a plain expression are plain. -/
theorem Plain.part {e n : Expr α} (h : e.Plain) (hn : n ∈ e.parts) : n.Plain :=
  forall_mem_parts (fun _ => Plain.children) h n hn

/-! ## Names in sets -/

/-- The tree names variables of `names` only, and writes those of `written` only. -/
structure NamesIn (names written : List String) (e : Expr α) : Prop where
  named : e.variableNames ⊆ names
  assigned : e.assignedNames ⊆ written

namespace NamesIn

variable {names written : List String} {e c : Expr α}

theorem part {n : Expr α} (h : NamesIn names written e) (hn : n ∈ e.parts) :
    NamesIn names written n :=
  ⟨List.Subset.trans (List.filterMap_subset _ (parts_subset hn)) h.named,
    List.Subset.trans (List.filterMap_subset _ (parts_subset hn)) h.assigned⟩

theorem child (h : NamesIn names written e) (hc : c ∈ e.children) : NamesIn names written c :=
  h.part (parts_subset_of_child hc c.self_mem_parts)

theorem variableName {x : String} (h : NamesIn names written e) (hx : e.variableName? = some x) :
    x ∈ names :=
  h.named (List.mem_filterMap.mpr ⟨e, e.self_mem_parts, hx⟩)

theorem assignedName {x : String} (h : NamesIn names written e) (hx : e.assignedName? = some x) :
    x ∈ written :=
  h.assigned (List.mem_filterMap.mpr ⟨e, e.self_mem_parts, hx⟩)

theorem target {place : Expr α} (h : NamesIn names written e) (hplace : e.target? = some place) :
    NamesIn names written place := by
  induction e using induct with
  | var =>
    cases hplace
    exact h
  | element =>
    obtain ⟨-, rfl⟩ := target?_element.mp hplace
    exact h
  | unary tag op x ih =>
    cases op with
    | group => exact ih (h.child (by simp [children])) hplace
    | positive | negative | not => cases hplace
  | assignment tag x v _ ih => exact ih (h.child (by simp [children])) hplace
  | literal | binary | conditional | call | sequence => cases hplace

theorem root {tag : Tag α} {x : String} (h : NamesIn names written e)
    (hroot : e.root? = some (tag, x)) : x ∈ names := by
  induction e using induct with
  | var =>
    cases hroot
    exact h.variableName rfl
  | element _ a _ ih _ => exact ih (h.child (by simp [children])) hroot
  | literal | unary | binary | assignment | conditional | call | sequence => cases hroot

/-- What an assignment writes is one of both kinds. -/
theorem assigned_root {tag root : Tag α} {x v place : Expr α} {name : String}
    (h : NamesIn names written (.assignment tag x v)) (hplace : x.target? = some place)
    (hroot : place.root? = some (root, name)) : name ∈ names ∧ name ∈ written := by
  refine ⟨((h.child (c := x) (by simp [children])).target hplace).root hroot, ?_⟩
  exact h.assignedName (by simp [assignedName?, hplace, hroot])

end NamesIn

end Expr

end ComputedField
