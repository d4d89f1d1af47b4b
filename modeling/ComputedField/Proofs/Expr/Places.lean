import ComputedField.Proofs.Expr.Parts
import ComputedField.Proofs.Expr.Programs

/-!
# The places of a tree

Every node stands for a token, and so at the place of one. `Expr.PlacedIn` says of a whole tree that
its places are in a set. A tree that is read has the places of the tokens it was read from: each
function of the grammar takes tokens from the items and gives a tree with their places
(`Reader.Yields`).
-/

set_option autoImplicit false

namespace ComputedField

namespace Expr

variable {α : Type} {S : Position → Prop} {tag : Tag α} {e : Expr α}

/-- Every node of the tree is at a place of `S`. -/
def PlacedIn (S : Position → Prop) (e : Expr α) : Prop := ∀ n ∈ e.parts, S n.pos

theorem placedIn_iff : e.PlacedIn S ↔ S e.pos ∧ ∀ c ∈ e.children, c.PlacedIn S := by
  simp only [PlacedIn]
  rw [parts_eq, List.forall_mem_cons, List.forall_mem_flatMap]

/-! ### Nodes -/

@[simp] theorem placedIn_literal {v : Literal} : (literal tag v).PlacedIn S ↔ S tag.token.pos :=
  placedIn_iff.trans (by simp [children, pos, token, Expr.tag])

@[simp] theorem placedIn_var {name : String} : (var tag name).PlacedIn S ↔ S tag.token.pos :=
  placedIn_iff.trans (by simp [children, pos, token, Expr.tag])

@[simp] theorem placedIn_unary {op : UnaryOp} {x : Expr α} :
    (unary tag op x).PlacedIn S ↔ S tag.token.pos ∧ x.PlacedIn S :=
  placedIn_iff.trans (by simp [children, pos, token, Expr.tag])

@[simp] theorem placedIn_binary {op : BinaryOp} {l r : Expr α} :
    (binary tag op l r).PlacedIn S ↔ S tag.token.pos ∧ l.PlacedIn S ∧ r.PlacedIn S :=
  placedIn_iff.trans (by simp [children, pos, token, Expr.tag])

@[simp] theorem placedIn_assignment {x v : Expr α} :
    (assignment tag x v).PlacedIn S ↔ S tag.token.pos ∧ x.PlacedIn S ∧ v.PlacedIn S :=
  placedIn_iff.trans (by simp [children, pos, token, Expr.tag])

@[simp] theorem placedIn_conditional {c x y : Expr α} :
    (conditional tag c x y).PlacedIn S ↔
      S tag.token.pos ∧ c.PlacedIn S ∧ x.PlacedIn S ∧ y.PlacedIn S :=
  placedIn_iff.trans (by simp [children, pos, token, Expr.tag])

@[simp] theorem placedIn_element {a i : Expr α} :
    (element tag a i).PlacedIn S ↔ S tag.token.pos ∧ a.PlacedIn S ∧ i.PlacedIn S :=
  placedIn_iff.trans (by simp [children, pos, token, Expr.tag])

@[simp] theorem placedIn_call {name : String} {as : List (Expr α)} :
    (call tag name as).PlacedIn S ↔ S tag.token.pos ∧ ∀ a ∈ as, a.PlacedIn S :=
  placedIn_iff

@[simp] theorem placedIn_sequence {ss : List (Expr α)} :
    (sequence tag ss).PlacedIn S ↔ S tag.token.pos ∧ ∀ s ∈ ss, s.PlacedIn S :=
  placedIn_iff

theorem children_withTag (tag : Tag α) (e : Expr α) : (e.withTag tag).children = e.children := by
  cases e <;> rfl

/-- The note of a node has no part in its place. -/
@[simp] theorem placedIn_withNote {note : α} : (e.withNote note).PlacedIn S ↔ e.PlacedIn S := by
  rw [placedIn_iff, placedIn_iff (e := e), pos, token_withNote, withNote, children_withTag]
  rfl

namespace PlacedIn

theorem here (h : e.PlacedIn S) : S e.pos := h e e.self_mem_parts

theorem part {n : Expr α} (h : e.PlacedIn S) (hn : n ∈ e.parts) : n.PlacedIn S :=
  fun n' hn' => h n' (parts_subset hn hn')

theorem target {place : Expr α} (h : e.PlacedIn S) (hplace : e.target? = some place) :
    place.PlacedIn S := by
  induction e using induct with
  | var =>
    cases hplace
    exact h
  | element =>
    obtain ⟨-, rfl⟩ := target?_element.mp hplace
    exact h
  | unary tag op x ih =>
    cases op with
    | group => exact ih (placedIn_unary.mp h).2 hplace
    | positive | negative | not => cases hplace
  | assignment tag x v _ ih => exact ih (placedIn_assignment.mp h).2.2 hplace
  | literal | binary | conditional | call | sequence => cases hplace

theorem root {root : Tag α} {name : String} (h : e.PlacedIn S)
    (hroot : e.root? = some (root, name)) : S root.token.pos := by
  induction e using induct with
  | var =>
    cases hroot
    exact h.here
  | element _ a _ ih _ => exact ih (placedIn_element.mp h).2.1 hroot
  | literal | unary | binary | assignment | conditional | call | sequence => cases hroot

end PlacedIn

end Expr

/-! ## What is read -/

/-- All tokens among the items are at places of `S`. -/
def TokensIn (S : Position → Prop) (ts : List Item) : Prop := ∀ t : Token, .ok t ∈ ts → S t.pos

namespace Reader

variable {α β γ : Type} {S : Position → Prop} {n : Nat} {P : α → Prop} {Q : β → Prop}

/-- From at most `n` items with their tokens at places of `S` the program reads something of which
`P` holds. It leaves such items again, and no more than there were. -/
def Yields (S : Position → Prop) (n : Nat) (m : Reader α) (P : α → Prop) : Prop :=
  ∀ ts : List Item, ts.length ≤ n → TokensIn S ts → ∀ a rest, m ts = .ok (a, rest) →
    P a ∧ TokensIn S rest ∧ rest.length ≤ ts.length

namespace Yields

theorem pure {a : α} (h : P a) : Yields S n (Pure.pure a) P := by
  intro ts _ hts b rest hb
  cases hb
  exact ⟨h, hts, Nat.le_refl _⟩

theorem refuse (e : ReadError) : Yields S n (Reader.refuse e : Reader α) P := by
  intro ts _ _ a rest ha
  cases ha

theorem bind {m : Reader α} {k : α → Reader β} (h : Yields S n m P)
    (hk : ∀ a, P a → Yields S n (k a) Q) : Yields S n (m >>= k) Q := by
  intro ts hlength hts b rest hb
  rw [bind_apply] at hb
  obtain ⟨⟨a, mid⟩, ha, hb⟩ := bind_eq_ok.mp hb
  obtain ⟨hP, hmid, hshorter⟩ := h ts hlength hts a mid ha
  obtain ⟨hQ, hrest, hle⟩ := hk a hP mid (Nat.le_trans hshorter hlength) hmid b rest hb
  exact ⟨hQ, hrest, Nat.le_trans hle hshorter⟩

section Tokens

variable {p : Lexeme → Option β} {R : γ → Prop}

/-- A token that is taken is at a place of `S`, and fewer items are left. -/
theorem taken {k : Reader γ} {t : Token} {ts : List Item}
    (h : ∀ n' < n, S t.pos → Yields S n' k R) (hlength : (Except.ok t :: ts : List Item).length ≤ n)
    (hts : TokensIn S (.ok t :: ts)) {c : γ} {rest : List Item} (hc : k ts = .ok (c, rest)) :
    R c ∧ TokensIn S rest ∧ rest.length ≤ (Except.ok t :: ts : List Item).length := by
  have htail : TokensIn S ts := fun t' ht' => hts t' (List.mem_cons_of_mem _ ht')
  obtain ⟨hR, hrest, hle⟩ :=
    h ts.length hlength (hts t List.mem_cons_self) ts (Nat.le_refl _) htail c rest hc
  exact ⟨hR, hrest, Nat.le_succ_of_le hle⟩

theorem optional_bind {k : Option (Token × β) → Reader γ} (hnone : Yields S n (k none) R)
    (hsome : ∀ t b, ∀ n' < n, S t.pos → Yields S n' (k (some (t, b))) R) :
    Yields S n (optional p >>= k) R := by
  intro ts hlength hts c rest hc
  cases ts with
  | nil => exact hnone [] hlength hts c rest hc
  | cons item ts =>
    cases item with
    | error e => cases hc
    | ok t =>
      cases hb : p t.lexeme with
      | none =>
        refine hnone _ hlength hts c rest ?_
        simpa [bind_apply, optional, takeIf, hb] using hc
      | some b =>
        refine taken (hsome t b) hlength hts ?_
        simpa [bind_apply, optional, takeIf, hb] using hc

theorem expected_bind {asked : Expected} {stop : Position} {k : Token × β → Reader γ}
    (h : ∀ t b, ∀ n' < n, S t.pos → Yields S n' (k (t, b)) R) :
    Yields S n (expected p asked stop >>= k) R := by
  intro ts hlength hts c rest hc
  cases ts with
  | nil => cases hc
  | cons item ts =>
    cases item with
    | error e => cases hc
    | ok t =>
      cases hb : p t.lexeme with
      | none => simp [bind_apply, expected, takeExpected, hb, forget, Except.map] at hc
      | some b =>
        refine taken (h t b) hlength hts ?_
        simpa [bind_apply, expected, takeExpected, hb, forget, Except.map] using hc

end Tokens

end Yields

/-! ### The grammar -/

open RawExpr

/-- From at most `n` items, every function of the grammar below the assignments gives a tree with
the places of tokens. -/
structure ReadsPlaced (S : Position → Prop) (stop : Position) (n : Nat) : Prop where
  conditional : Yields S n (conditional stop) (Expr.PlacedIn S)
  chain : ∀ level ≤ Precedence.power, Yields S n (chain stop level) (Expr.PlacedIn S)
  operands : ∀ level < Precedence.power, ∀ left, left.PlacedIn S →
    Yields S n (operands stop level left) (Expr.PlacedIn S)
  power : Yields S n (power stop) (Expr.PlacedIn S)
  indexed : Yields S n (indexed stop) (Expr.PlacedIn S)
  indices : ∀ array, array.PlacedIn S → Yields S n (indices stop array) (Expr.PlacedIn S)
  arguments : Yields S n (arguments stop) fun as => ∀ a ∈ as, a.PlacedIn S
  moreArguments : Yields S n (moreArguments stop) fun as => ∀ a ∈ as, a.PlacedIn S

section Items

variable {stop : Position} (ih : ∀ n' < n, ReadsPlaced S stop n')

include ih

theorem yields_primary : Yields S n (primary stop) (Expr.PlacedIn S) := by
  rw [primary_eq]
  refine .expected_bind fun t l n₁ h₁ ht => ?_
  dsimp only
  split
  · exact .pure (by simpa)
  · exact .refuse _
  · split
    · refine (ih n₁ h₁).conditional.bind fun e he => ?_
      exact .expected_bind fun _ _ _ _ _ => .pure (by simp [ht, he])
    · refine .optional_bind (.pure (by simpa)) fun _ _ n₂ h₂ _ => ?_
      refine (ih n₂ (Nat.lt_trans h₂ h₁)).arguments.bind fun as has => ?_
      exact .pure (by simpa [ht] using has)
    · exact .refuse _

theorem yields_indices {array : RawExpr} (harray : array.PlacedIn S) :
    Yields S n (indices stop array) (Expr.PlacedIn S) := by
  rw [indices_eq]
  refine .optional_bind (.pure harray) fun t _ n₁ h₁ ht => ?_
  refine (ih n₁ h₁).conditional.bind fun i hi => ?_
  refine .expected_bind fun _ _ n₂ h₂ _ => ?_
  exact (ih n₂ (Nat.lt_trans h₂ h₁)).indices _ (by simp [ht, harray, hi])

theorem yields_indexed : Yields S n (indexed stop) (Expr.PlacedIn S) := by
  rw [indexed_eq]
  exact (yields_primary ih).bind fun array harray => yields_indices ih harray

theorem yields_unary : Yields S n (unary stop) (Expr.PlacedIn S) := by
  rw [unary_eq]
  refine .optional_bind (yields_indexed ih) fun t op n₁ h₁ ht => ?_
  exact (ih n₁ h₁).indexed.bind fun e he => .pure (by simp [ht, he])

theorem yields_power : Yields S n (power stop) (Expr.PlacedIn S) := by
  rw [power_eq]
  refine (yields_unary ih).bind fun base hbase => ?_
  refine .optional_bind (.pure hbase) fun t op n₁ h₁ ht => ?_
  exact (ih n₁ h₁).power.bind fun exponent he => .pure (by simp [ht, hbase, he])

theorem yields_operands {level : Nat} (hlevel : level < Precedence.power) {left : RawExpr}
    (hleft : left.PlacedIn S) : Yields S n (operands stop level left) (Expr.PlacedIn S) := by
  rw [operands_eq]
  refine .optional_bind (.pure hleft) fun t op n₁ h₁ ht => ?_
  refine ((ih n₁ h₁).chain _ hlevel).bind fun right hright => ?_
  exact (ih n₁ h₁).operands level hlevel _ (by simp [ht, hleft, hright])

/-- Induction on the levels, from the tightest down. -/
theorem yields_chain {level : Nat} (hlevel : level ≤ Precedence.power) :
    Yields S n (chain stop level) (Expr.PlacedIn S) := by
  by_cases hlt : level < Precedence.power
  · rw [chain_eq stop hlt]
    exact (yields_chain hlt).bind fun left hleft => yields_operands ih hlt hleft
  · obtain rfl := Nat.le_antisymm hlevel (Nat.le_of_not_lt hlt)
    rw [chain_eq_power]
    exact yields_power ih
termination_by Precedence.power - level

theorem yields_conditional : Yields S n (conditional stop) (Expr.PlacedIn S) := by
  rw [conditional_eq]
  refine (yields_chain ih (by decide)).bind fun c hc => ?_
  refine .optional_bind (.pure hc) fun t _ n₁ h₁ ht => ?_
  refine (ih n₁ h₁).conditional.bind fun x hx => ?_
  refine .expected_bind fun _ _ n₂ h₂ _ => ?_
  exact (ih n₂ (Nat.lt_trans h₂ h₁)).conditional.bind fun y hy => .pure (by simp [ht, hc, hx, hy])

theorem yields_moreArguments :
    Yields S n (moreArguments stop) fun as => ∀ a ∈ as, a.PlacedIn S := by
  rw [moreArguments_eq]
  refine (yields_conditional ih).bind fun e he => ?_
  refine .expected_bind fun t more n₁ h₁ _ => ?_
  cases more with
  | true =>
    refine (ih n₁ h₁).moreArguments.bind fun es hes => .pure ?_
    exact List.forall_mem_cons.mpr ⟨he, hes⟩
  | false => exact .pure (by simpa using he)

theorem yields_arguments : Yields S n (arguments stop) fun as => ∀ a ∈ as, a.PlacedIn S := by
  rw [arguments_eq]
  exact .optional_bind (yields_moreArguments ih) fun _ _ _ _ _ => .pure (by simp)

end Items

/-- Induction on the number of items: every function goes on with fewer, or down the grammar. -/
theorem readsPlaced (S : Position → Prop) (stop : Position) (n : Nat) : ReadsPlaced S stop n := by
  have ih : ∀ n' < n, ReadsPlaced S stop n' := fun n' _ => readsPlaced S stop n'
  exact ⟨yields_conditional ih, fun _ => yields_chain ih, fun _ h _ => yields_operands ih h,
    yields_power ih, yields_indexed ih, fun _ => yields_indices ih, yields_arguments ih,
    yields_moreArguments ih⟩

/-! ### Statements -/

theorem yields_assignment (S : Position → Prop) (stop : Position) (n : Nat) :
    Yields S n (assignment stop) (Expr.PlacedIn S) := by
  rw [assignment_eq]
  refine (readsPlaced S stop n).conditional.bind fun target htarget => ?_
  refine .optional_bind (.pure htarget) fun t _ n₁ h₁ ht => ?_
  exact (yields_assignment S stop n₁).bind fun v hv => .pure (by simp [ht, htarget, hv])

/-- Statements with their semicolons, all at places of `S`. -/
def StatementsIn (S : Position → Prop) (r : RawExpr × List (Token × RawExpr)) : Prop :=
  r.1.PlacedIn S ∧ ∀ p ∈ r.2, S p.1.pos ∧ p.2.PlacedIn S

theorem yields_ending {stop : Position} {a : α} (h : P a) : Yields S n (ending stop a) P := by
  intro ts _ _ b rest hb
  obtain ⟨t, -, hb⟩ := bind_eq_ok.mp hb
  split at hb
  · cases hb
    exact ⟨h, fun t ht => absurd ht List.not_mem_nil, Nat.zero_le _⟩
  · cases hb

theorem yields_statements (S : Position → Prop) (stop : Position) (n : Nat) :
    Yields S n (statements stop) (StatementsIn S) := by
  rw [statements_eq]
  refine (yields_assignment S stop n).bind fun first hfirst => ?_
  refine .optional_bind (yields_ending ⟨hfirst, by simp⟩) fun t _ n₁ h₁ ht => ?_
  refine (yields_statements S stop n₁).bind fun r hr => .pure ⟨hfirst, ?_⟩
  exact List.forall_mem_cons.mpr ⟨⟨ht, hr.1⟩, hr.2⟩

end Reader

namespace RawExpr

theorem placedIn_ofStatements {S : Position → Prop} {first : RawExpr}
    {others : List (Token × RawExpr)} (h : Reader.StatementsIn S (first, others)) :
    (ofStatements first others).PlacedIn S := by
  obtain ⟨hfirst, hothers⟩ := h
  cases others with
  | nil => exact hfirst
  | cons other others =>
    refine Expr.placedIn_sequence.mpr ⟨(hothers other List.mem_cons_self).1, ?_⟩
    refine List.forall_mem_cons.mpr ⟨hfirst, fun s hs => ?_⟩
    obtain ⟨p, hp, rfl⟩ := List.mem_map.mp hs
    exact (hothers p hp).2

/-- **A tree that is read is placed by the tokens of its text.** -/
theorem placedIn_ofText {S : Position → Prop} {text : String} {tree : RawExpr}
    (htokens : TokensIn S (Scan.ofText text).items) (h : ofText text = .ok tree) :
    tree.PlacedIn S := by
  unfold ofText ofScan at h
  obtain ⟨⟨first, others⟩, hread, h⟩ := bind_eq_ok.mp h
  cases h
  have hyields := Reader.yields_statements S (Scan.ofText text).stop _ _ (Nat.le_refl _) htokens
    (first, others) []
  refine placedIn_ofStatements (hyields ?_).1
  rw [Reader.statements, hread]
  rfl

end RawExpr

end ComputedField
