import ComputedField.Proofs.Expr.Grammar
import ComputedField.Proofs.Outcome
import ComputedField.Proofs.Token.Spelling

/-!
# What is read is derived

Every function of the reader takes from its items the lexemes of the expression that it gives:
`Derived` for an expression of its own, `Extends` for what comes behind a left operand. A text that
is read has tokens, and these derive its tree (`derives_of_ofText`).
-/

set_option autoImplicit false

namespace ComputedField

/-! ## Lexemes of items -/

/-- The items begin with tokens that say `ls`, and go on with `rest`. -/
def Spells (ts : List Item) (ls : List Lexeme) (rest : List Item) : Prop :=
  ∃ tokens : List Token, ts = tokens.map .ok ++ rest ∧ tokens.map Token.lexeme = ls

namespace Spells

variable {ts mid rest : List Item} {ls ls' : List Lexeme}

theorem nil : Spells ts [] ts := ⟨[], rfl, rfl⟩

theorem cons {t : Token} {l : Lexeme} (hl : t.lexeme = l) (h : Spells ts ls rest) :
    Spells (.ok t :: ts) (l :: ls) rest := by
  obtain ⟨tokens, rfl, rfl⟩ := h
  exact ⟨t :: tokens, rfl, congrArg (· :: _) hl⟩

theorem append (h : Spells ts ls mid) (h' : Spells mid ls' rest) : Spells ts (ls ++ ls') rest := by
  obtain ⟨tokens, rfl, rfl⟩ := h
  obtain ⟨tokens', rfl, rfl⟩ := h'
  exact ⟨tokens ++ tokens', by simp, by simp⟩

theorem eq_of_nil (h : Spells ts [] rest) : ts = rest := by
  obtain ⟨tokens, rfl, htokens⟩ := h
  rw [List.map_eq_nil_iff.mp htokens, List.map_nil, List.nil_append]

theorem of_cons {l : Lexeme} (h : Spells ts (l :: ls) rest) :
    ∃ t ts', ts = .ok t :: ts' ∧ t.lexeme = l ∧ Spells ts' ls rest := by
  obtain ⟨tokens, rfl, htokens⟩ := h
  obtain ⟨t, tokens, rfl, rfl, rfl⟩ := List.map_eq_cons_iff.mp htokens
  exact ⟨t, _, rfl, rfl, tokens, rfl, rfl⟩

theorem of_append (h : Spells ts (ls ++ ls') rest) :
    ∃ mid, Spells ts ls mid ∧ Spells mid ls' rest := by
  obtain ⟨tokens, rfl, htokens⟩ := h
  obtain ⟨before, behind, rfl, rfl, rfl⟩ := List.map_eq_append_iff.mp htokens
  exact ⟨behind.map .ok ++ rest, ⟨before, by simp, rfl⟩, behind, rfl, rfl⟩

end Spells

/-! ## What the reader finds in a lexeme -/

theorem Lexeme.isMark_eq_some {m : Mark} {l : Lexeme} {u : Unit} :
    l.isMark m = some u ↔ l = .mark m := by
  simp [isMark]

theorem BinaryOp.ofMark?_eq_some {m : Mark} {op : BinaryOp} :
    ofMark? m = some op ↔ op.mark = m ∧ op ≠ concat := by
  constructor
  · intro h
    cases m <;> cases h <;> exact ⟨rfl, by decide⟩
  · rintro ⟨rfl, hop⟩
    rcases op with op | _ | r | c
    · cases op <;> rfl
    · exact absurd rfl hop
    · cases r <;> rfl
    · cases c <;> rfl

theorem Lexeme.operatorAt_eq_some {level : Nat} {l : Lexeme} {op : BinaryOp} :
    l.operatorAt level = some op ↔ l = .mark op.mark ∧ op ≠ .concat ∧ op.precedence = level := by
  cases l with
  | mark m =>
    simp only [operatorAt, Option.filter_eq_some_iff, BinaryOp.ofMark?_eq_some, beq_iff_eq,
      mark.injEq, and_assoc, eq_comm (a := m)]
  | _ => simp [operatorAt]

theorem Lexeme.sign?_eq_some {l : Lexeme} {op : UnaryOp} :
    l.sign? = some op ↔ ∃ m, op.mark? = some m ∧ l = .mark m := by
  constructor
  · intro h
    unfold sign? at h
    split at h <;> cases h <;> exact ⟨_, rfl, rfl⟩
  · rintro ⟨m, hop, rfl⟩
    cases op <;> cases hop <;> rfl

theorem Lexeme.argumentEnd?_eq_some {l : Lexeme} {more : Bool} :
    l.argumentEnd? = some more ↔ l = .mark (if more then .comma else .rightParen) := by
  constructor
  · intro h
    unfold argumentEnd? at h
    split at h <;> cases h <;> rfl
  · rintro rfl
    cases more <;> rfl

theorem Literal.ofName?_eq_none {name : String} : ofName? name = none ↔ name ∉ keywords := by
  unfold ofName?
  split <;> simp_all [keywords]

theorem BinaryOp.eq_power_of_precedence {op : BinaryOp} (h : op.precedence = Precedence.power) :
    op = .power := by
  rcases op with op | _ | _ | _
  · cases op <;> first | rfl | cases h
  all_goals cases h

/-- A lexeme that says a literal makes it up. -/
theorem Derives.literal {l : Lexeme} {v : Literal} {tag : Tag Unit}
    (h : l.literal? = some (.ok v)) : Derives Precedence.primary [l] (.literal tag v) := by
  cases l with
  | integer digits =>
    simp only [Lexeme.literal?, Option.some.injEq] at h
    split at h
    · next n hn =>
      cases h
      exact .integer hn
    · cases h
  | decimal digits =>
    simp only [Lexeme.literal?, Option.some.injEq] at h
    split at h
    · next d hd =>
      cases h
      exact .decimal hd
    · cases h
  | string s =>
    cases h
    exact .string
  | identifier x =>
    simp only [Lexeme.literal?, Option.map_eq_some_iff] at h
    obtain ⟨v, hx, hv⟩ := h
    cases hv
    unfold Literal.ofName? at hx
    split at hx <;> cases hx
    · exact .boolean (b := true)
    · exact .boolean (b := false)
    · exact .null
  | endOfInput | mark => cases h

/-- A name that no literal has is a variable or a call. -/
theorem Lexeme.not_mem_keywords {name : String} (h : (identifier name).literal? = none) :
    name ∉ keywords := by
  simpa [literal?, Literal.ofName?_eq_none] using h

/-! ## Single tokens -/

/-- The first item is the token that was taken, and `p` finds in it what it gives. -/
def Took {β : Type} (p : Lexeme → Option β) (ts : List Item) {n : Nat}
    (r : Reading (Token × β) n) : Prop :=
  ts = .ok r.result.1 :: r.rest ∧ p r.result.1.lexeme = some r.result.2

/-- A token that was taken says the first lexeme. -/
theorem Took.spells {β : Type} {p : Lexeme → Option β} {ts ts₁ rest : List Item} {n : Nat}
    {t : Token} {b : β} {h₁ : ts₁.length < n} {l : Lexeme} {ls : List Lexeme}
    (h : Took p ts (⟨(t, b), ts₁, h₁⟩ : Reading (Token × β) n)) (hl : t.lexeme = l)
    (hls : Spells ts₁ ls rest) : Spells ts (l :: ls) rest := by
  obtain ⟨hts, -⟩ := h
  rw [hts]
  exact .cons hl hls

theorem gives_takeIf {β : Type} (p : Lexeme → Option β) (ts : List Item) :
    Gives (takeIf p ts) (∀ r ∈ ·, Took p ts r) := by
  unfold takeIf
  split
  · exact .ok fun r hr => by cases hr
  · exact .throw _
  · next t rest =>
    refine .ok fun r hr => ?_
    obtain ⟨b, hb, rfl⟩ := Option.map_eq_some_iff.mp hr
    exact ⟨rfl, hb⟩

theorem gives_takeExpected {β : Type} (p : Lexeme → Option β) (expected : Expected)
    (stop : Position) (ts : List Item) : Gives (takeExpected p expected stop ts) (Took p ts) := by
  unfold takeExpected
  split
  · exact .throw _
  · exact .throw _
  · split
    · next hb => exact .ok ⟨rfl, hb⟩
    · exact .throw _

namespace RawExpr

/-! ## Expressions -/

variable {stop : Position} {n : Nat}

/-- The reading takes the lexemes of its expression. -/
def Derived (level : Nat) (ts : List Item) (r : Reading RawExpr n) : Prop :=
  ∃ ls, Spells ts ls r.rest ∧ Derives level ls r.result

/-- The reading goes on with `left` and takes the lexemes that are new in its expression. -/
def Extends (level : Nat) (left : RawExpr) (ts : List Item) (r : Reading RawExpr n) : Prop :=
  ∃ ls, Spells ts ls r.rest ∧ ∀ ls₀, Derives level ls₀ left → Derives level (ls₀ ++ ls) r.result

/-- The reading takes the lexemes of its arguments and the closing parenthesis. -/
def DerivedArguments (ts : List Item) (r : Reading (List RawExpr) n) : Prop :=
  ∃ parts : List (List Lexeme × RawExpr),
    Spells ts ([.mark .comma].intercalate (parts.map Prod.fst) ++ [.mark .rightParen]) r.rest ∧
      (∀ p ∈ parts, Derives Precedence.conditional p.1 p.2) ∧ r.result = parts.map Prod.snd

theorem Extends.derived {level : Nat} {left : RawExpr} {ts ts₁ : List Item} {ls : List Lexeme}
    {r : Reading RawExpr n} (h : Extends level left ts₁ r) (hls : Spells ts ls ts₁)
    (hleft : Derives level ls left) : Derived level ts r := by
  obtain ⟨ls', hls', hr⟩ := h
  exact ⟨ls ++ ls', hls.append hls', hr ls hleft⟩

/-- From these items, every function of the grammar below the assignments takes the lexemes of what
it gives. -/
structure ReadsDerived (stop : Position) (ts : List Item) : Prop where
  conditional : Gives (readConditional stop ts) (Derived Precedence.conditional ts)
  chain : ∀ level ≤ Precedence.power, Gives (readChain stop level ts) (Derived level ts)
  operands : ∀ level < Precedence.power, ∀ left,
    Gives (readOperands stop level left ts) (Extends level left ts)
  power : Gives (readPower stop ts) (Derived Precedence.power ts)
  indexed : Gives (readIndexed stop ts) (Derived Precedence.primary ts)
  indices : ∀ array, Gives (readIndices stop array ts) (Extends Precedence.primary array ts)
  arguments : Gives (readArguments stop ts) (DerivedArguments ts)
  moreArguments :
    Gives (readMoreArguments stop ts) fun r => r.result ≠ [] ∧ DerivedArguments ts r

section Items

variable {ts : List Item} (ih : ∀ ts', ts'.length < ts.length → ReadsDerived stop ts')

include ih

theorem gives_readMoreArguments
    (hconditional : Gives (readConditional stop ts) (Derived Precedence.conditional ts)) :
    Gives (readMoreArguments stop ts) fun r => r.result ≠ [] ∧ DerivedArguments ts r := by
  rw [readMoreArguments]
  refine hconditional.bind ?_
  intro r he
  obtain ⟨e, ts₁, h₁⟩ := r
  obtain ⟨ls, hls, he⟩ := he
  refine (gives_takeExpected _ _ _ _).bind ?_
  intro r ht
  obtain ⟨⟨t, more⟩, ts₂, h₂⟩ := r
  have hl := Lexeme.argumentEnd?_eq_some.mp ht.2
  cases more with
  | true =>
    refine (ih ts₂ (by omega)).moreArguments.bind ?_
    intro r hes
    obtain ⟨es, ts₃, h₃⟩ := r
    obtain ⟨hne, parts, hparts, hall, hes⟩ := hes
    obtain rfl : es = parts.map Prod.snd := hes
    refine .pure ⟨List.cons_ne_nil _ _, (ls, e) :: parts, ?_, ?_, rfl⟩
    · rw [List.map_cons, List.intercalate_cons_of_ne_nil (by simpa using hne), List.append_assoc,
        List.append_assoc]
      exact hls.append (ht.spells hl hparts)
    · intro p hp
      rcases List.mem_cons.mp hp with rfl | hp
      · exact he
      · exact hall p hp
  | false =>
    refine .pure ⟨List.cons_ne_nil _ _, [(ls, e)], ?_, ?_, rfl⟩
    · rw [List.map_singleton, List.intercalate_singleton]
      exact hls.append (ht.spells hl .nil)
    · intro p hp
      rw [List.mem_singleton.mp hp]
      exact he

theorem gives_readPrimary : Gives (readPrimary stop ts) (Derived Precedence.primary ts) := by
  rw [readPrimary]
  refine (gives_takeExpected _ _ _ _).bind ?_
  intro r ht
  obtain ⟨⟨t, l⟩, ts₁, h₁⟩ := r
  obtain hl : t.lexeme = l := by simpa using ht.2
  dsimp only
  split
  · next v hv => exact .pure ⟨[l], ht.spells hl .nil, .literal hv⟩
  · exact .throw _
  · next hnone =>
    split
    · refine (ih ts₁ h₁).conditional.bind ?_
      intro r he
      obtain ⟨e, ts₂, h₂⟩ := r
      obtain ⟨ls, hls, he⟩ := he
      refine (gives_takeExpected _ _ _ _).bind ?_
      intro r ht'
      obtain ⟨⟨t', _⟩, ts₃, h₃⟩ := r
      have hl' := Lexeme.isMark_eq_some.mp ht'.2
      exact .pure ⟨_, ht.spells hl (hls.append (ht'.spells hl' .nil)), .group he⟩
    · next x =>
      have hx := Lexeme.not_mem_keywords hnone
      refine (gives_takeIf _ _).bind fun found hfound => ?_
      cases found with
      | none => exact .pure ⟨[.identifier x], ht.spells hl .nil, .var hx⟩
      | some found =>
        obtain ⟨⟨t', _⟩, ts₂, h₂⟩ := found
        have ht' := hfound _ rfl
        have hl' := Lexeme.isMark_eq_some.mp ht'.2
        refine (ih ts₂ (by omega)).arguments.bind ?_
        intro r has
        obtain ⟨as, ts₃, h₃⟩ := r
        obtain ⟨parts, hparts, hall, has⟩ := has
        obtain rfl : as = parts.map Prod.snd := has
        exact .pure ⟨_, ht.spells hl (ht'.spells hl' hparts), .call hx hall⟩
    · exact .throw _

theorem gives_readIndices (array : RawExpr) :
    Gives (readIndices stop array ts) (Extends Precedence.primary array ts) := by
  rw [readIndices]
  refine (gives_takeIf _ _).bind fun found hfound => ?_
  cases found with
  | none => exact .pure ⟨[], .nil, fun ls₀ h => by simpa using h⟩
  | some found =>
    obtain ⟨⟨t, _⟩, ts₁, h₁⟩ := found
    have ht := hfound _ rfl
    have hl := Lexeme.isMark_eq_some.mp ht.2
    refine (ih ts₁ h₁).conditional.bind ?_
    intro r hi
    obtain ⟨i, ts₂, h₂⟩ := r
    obtain ⟨is, his, hi⟩ := hi
    refine (gives_takeExpected _ _ _ _).bind ?_
    intro r ht'
    obtain ⟨⟨t', _⟩, ts₃, h₃⟩ := r
    have hl' := Lexeme.isMark_eq_some.mp ht'.2
    refine ((ih ts₃ (by omega)).indices _).bind ?_
    intro r he
    obtain ⟨e, ts₄, h₄⟩ := r
    obtain ⟨ls, hls, he⟩ := he
    have hindex := his.append (ht'.spells hl' .nil)
    refine .pure ⟨_, ht.spells hl (hindex.append hls), fun ls₀ h₀ => ?_⟩
    simpa using he _ (h₀.element hi)

theorem gives_readIndexed : Gives (readIndexed stop ts) (Derived Precedence.primary ts) := by
  rw [readIndexed]
  refine (gives_readPrimary ih).bind ?_
  intro r ha
  obtain ⟨array, ts₁, h₁⟩ := r
  obtain ⟨ls, hls, ha⟩ := ha
  refine ((ih ts₁ h₁).indices array).bind ?_
  intro r he
  obtain ⟨e, ts₂, h₂⟩ := r
  exact .pure (he.derived hls ha)

theorem gives_readUnary : Gives (readUnary stop ts) (Derived Precedence.unary ts) := by
  rw [readUnary]
  refine (gives_takeIf _ _).bind fun found hfound => ?_
  cases found with
  | none =>
    intro r hr
    obtain ⟨ls, hls, he⟩ := gives_readIndexed ih r hr
    exact ⟨ls, hls, .tighter (by decide) he⟩
  | some found =>
    obtain ⟨⟨t, op⟩, ts₁, h₁⟩ := found
    have ht := hfound _ rfl
    obtain ⟨m, hop, hl⟩ := Lexeme.sign?_eq_some.mp ht.2
    refine (ih ts₁ h₁).indexed.bind ?_
    intro r he
    obtain ⟨e, ts₂, h₂⟩ := r
    obtain ⟨ls, hls, he⟩ := he
    exact .pure ⟨_, ht.spells hl hls, .sign hop he⟩

theorem gives_readPower : Gives (readPower stop ts) (Derived Precedence.power ts) := by
  rw [readPower]
  refine (gives_readUnary ih).bind ?_
  intro r hbase
  obtain ⟨base, ts₁, h₁⟩ := r
  obtain ⟨ls, hls, hbase⟩ := hbase
  refine (gives_takeIf _ _).bind fun found hfound => ?_
  cases found with
  | none => exact .pure ⟨ls, hls, .tighter (by decide) hbase⟩
  | some found =>
    obtain ⟨⟨t, op⟩, ts₂, h₂⟩ := found
    have ht := hfound _ rfl
    obtain ⟨hl, -, hop⟩ := Lexeme.operatorAt_eq_some.mp ht.2
    refine (ih ts₂ (by omega)).power.bind ?_
    intro r he
    obtain ⟨e, ts₃, h₃⟩ := r
    obtain ⟨rs, hrs, he⟩ := he
    obtain rfl := BinaryOp.eq_power_of_precedence hop
    exact .pure ⟨_, hls.append (ht.spells hl hrs), .power hbase he⟩

theorem gives_readOperands {level : Nat} (hlevel : level < Precedence.power) (left : RawExpr) :
    Gives (readOperands stop level left ts) (Extends level left ts) := by
  rw [readOperands]
  refine (gives_takeIf _ _).bind fun found hfound => ?_
  cases found with
  | none => exact .pure ⟨[], .nil, fun ls₀ h => by simpa using h⟩
  | some found =>
    obtain ⟨⟨t, op⟩, ts₁, h₁⟩ := found
    have ht := hfound _ rfl
    obtain ⟨hl, hconcat, rfl⟩ := Lexeme.operatorAt_eq_some.mp ht.2
    have hpower : op ≠ .power := by
      rintro rfl
      exact absurd hlevel (Nat.lt_irrefl _)
    refine ((ih ts₁ h₁).chain _ hlevel).bind ?_
    intro r hright
    obtain ⟨right, ts₂, h₂⟩ := r
    obtain ⟨rs, hrs, hright⟩ := hright
    refine ((ih ts₂ (by omega)).operands _ hlevel _).bind ?_
    intro r he
    obtain ⟨e, ts₃, h₃⟩ := r
    obtain ⟨ls, hls, he⟩ := he
    -- the operator and both its operands are the left operand of what follows
    refine .pure ⟨_, (ht.spells hl hrs).append hls, fun ls₀ h₀ => ?_⟩
    simpa using he _ (.chain hpower hconcat h₀ hright)

/-- Induction on the levels, from the tightest down. -/
theorem gives_readChain {level : Nat} (hlevel : level ≤ Precedence.power) :
    Gives (readChain stop level ts) (Derived level ts) := by
  rw [readChain]
  by_cases hlt : level < Precedence.power
  · rw [if_pos hlt]
    refine (gives_readChain hlt).bind ?_
    intro r hleft
    obtain ⟨left, ts₁, h₁⟩ := r
    obtain ⟨ls, hls, hleft⟩ := hleft
    refine ((ih ts₁ h₁).operands level hlt left).bind ?_
    intro r he
    obtain ⟨e, ts₂, h₂⟩ := r
    exact .pure (he.derived hls (.tighter (Nat.lt_of_lt_of_le hlt (by decide)) hleft))
  · rw [if_neg hlt, Nat.le_antisymm hlevel (Nat.le_of_not_lt hlt)]
    exact gives_readPower ih
termination_by Precedence.power - level

theorem gives_readConditional :
    Gives (readConditional stop ts) (Derived Precedence.conditional ts) := by
  rw [readConditional]
  refine (gives_readChain ih (by decide)).bind ?_
  intro r hc
  obtain ⟨c, ts₁, h₁⟩ := r
  obtain ⟨cs, hcs, hc⟩ := hc
  refine (gives_takeIf _ _).bind fun found hfound => ?_
  cases found with
  | none => exact .pure ⟨cs, hcs, .tighter (by decide) hc⟩
  | some found =>
    obtain ⟨⟨t, _⟩, ts₂, h₂⟩ := found
    have ht := hfound _ rfl
    have hl := Lexeme.isMark_eq_some.mp ht.2
    refine (ih ts₂ (by omega)).conditional.bind ?_
    intro r hx
    obtain ⟨x, ts₃, h₃⟩ := r
    obtain ⟨xs, hxs, hx⟩ := hx
    refine (gives_takeExpected _ _ _ _).bind ?_
    intro r ht'
    obtain ⟨⟨t', _⟩, ts₄, h₄⟩ := r
    have hl' := Lexeme.isMark_eq_some.mp ht'.2
    refine (ih ts₄ (by omega)).conditional.bind ?_
    intro r hy
    obtain ⟨y, ts₅, h₅⟩ := r
    obtain ⟨ys, hys, hy⟩ := hy
    have hbranches := hxs.append (ht'.spells hl' hys)
    exact .pure ⟨_, hcs.append (ht.spells hl hbranches), .conditional hc hx hy⟩

theorem gives_readArguments : Gives (readArguments stop ts) (DerivedArguments ts) := by
  rw [readArguments]
  refine (gives_takeIf _ _).bind fun found hfound => ?_
  cases found with
  | none =>
    intro r hr
    exact (gives_readMoreArguments ih (gives_readConditional ih) r hr).2
  | some found =>
    obtain ⟨⟨t, _⟩, ts₁, h₁⟩ := found
    have ht := hfound _ rfl
    have hl := Lexeme.isMark_eq_some.mp ht.2
    refine .pure ⟨[], ht.spells hl .nil, ?_, rfl⟩
    intro p hp
    cases hp

end Items

/-- Induction on the number of items: every function goes on with fewer, or down the grammar. -/
theorem readsDerived (stop : Position) (ts : List Item) : ReadsDerived stop ts := by
  have ih : ∀ ts', ts'.length < ts.length → ReadsDerived stop ts' :=
    fun ts' h => readsDerived stop ts'
  exact ⟨gives_readConditional ih, fun _ => gives_readChain ih, fun _ => gives_readOperands ih,
    gives_readPower ih, gives_readIndexed ih, gives_readIndices ih, gives_readArguments ih,
    gives_readMoreArguments ih (gives_readConditional ih)⟩
termination_by ts.length

/-! ## Statements -/

theorem gives_readAssignment (stop : Position) (ts : List Item) :
    Gives (readAssignment stop ts) (Derived Precedence.assignment ts) := by
  rw [readAssignment]
  refine (readsDerived stop ts).conditional.bind ?_
  intro r htarget
  obtain ⟨target, ts₁, h₁⟩ := r
  obtain ⟨xs, hxs, htarget⟩ := htarget
  refine (gives_takeIf _ _).bind fun found hfound => ?_
  cases found with
  | none => exact .pure ⟨xs, hxs, .tighter (by decide) htarget⟩
  | some found =>
    obtain ⟨⟨t, _⟩, ts₂, h₂⟩ := found
    have ht := hfound _ rfl
    have hl := Lexeme.isMark_eq_some.mp ht.2
    refine (gives_readAssignment stop ts₂).bind ?_
    intro r hvalue
    obtain ⟨value, ts₃, h₃⟩ := r
    obtain ⟨vs, hvs, hvalue⟩ := hvalue
    exact .pure ⟨_, hxs.append (ht.spells hl hvs), .assignment htarget hvalue⟩
termination_by ts.length

/-- Statements are read up to the last item, or up to one that says the end of input. -/
theorem gives_readStatements (stop : Position) (ts : List Item) :
    Gives (readStatements stop ts) fun r => ∃ parts : List (List Lexeme × RawExpr),
      ∃ rest : List Item,
      Spells ts ([.mark .semicolon].intercalate (parts.map Prod.fst)) rest ∧
        (∀ p ∈ parts, Derives Precedence.assignment p.1 p.2) ∧
        r.1 :: r.2.map Prod.snd = parts.map Prod.snd ∧
        ∀ item ∈ rest.head?, ∃ t : Token, item = .ok t ∧ t.lexeme = .endOfInput := by
  rw [readStatements]
  refine (gives_readAssignment stop ts).bind ?_
  intro r hfirst
  obtain ⟨first, ts₁, h₁⟩ := r
  obtain ⟨ls, hls, hfirst⟩ := hfirst
  refine (gives_takeIf _ _).bind fun found hfound => ?_
  cases found with
  | none =>
    refine (gives_self _).bind fun t ht => ?_
    split
    · next hend =>
      refine .pure ⟨[(ls, first)], ts₁, ?_, ?_, rfl, ?_⟩
      · rwa [List.map_singleton, List.intercalate_singleton]
      · intro p hp
        rw [List.mem_singleton.mp hp]
        exact hfirst
      · intro item hitem
        cases ts₁ with
        | nil => cases hitem
        | cons item' ts₁ =>
          cases hitem
          exact ⟨t, mapError_eq_ok.mp ht, hend⟩
    · exact .throw _
  | some found =>
    obtain ⟨⟨t, _⟩, ts₂, h₂⟩ := found
    have ht := hfound _ rfl
    have hl := Lexeme.isMark_eq_some.mp ht.2
    refine (gives_readStatements stop ts₂).bind ?_
    intro r hr
    obtain ⟨next, more⟩ := r
    obtain ⟨parts, rest, hparts, hall, hmore, hrest⟩ := hr
    have hne : parts ≠ [] := by
      rintro rfl
      cases hmore
    refine .pure ⟨(ls, first) :: parts, rest, ?_, ?_, congrArg (first :: ·) hmore, hrest⟩
    · rw [List.map_cons, List.intercalate_cons_of_ne_nil (by simpa using hne), List.append_assoc]
      exact hls.append (ht.spells hl hparts)
    · intro p hp
      rcases List.mem_cons.mp hp with rfl | hp
      · exact hfirst
      · exact hall p hp
termination_by ts.length

/-- **The tree of a text that is read is derived from its tokens.** -/
theorem derives_of_ofText {text : String} {tree : RawExpr} (h : ofText text = .ok tree) :
    ∃ tokens, tokenize text = .ok tokens ∧
      Derives Precedence.sequence (tokens.map Token.lexeme) tree := by
  unfold ofText ofScan at h
  obtain ⟨⟨first, others⟩, hread, h⟩ := bind_eq_ok.mp h
  cases h
  obtain ⟨parts, rest, ⟨tokens, hitems, hlexemes⟩, hall, hstatements, hrest⟩ :=
    gives_readStatements _ _ _ hread
  -- no token says the end of input, so nothing is left
  obtain rfl : rest = [] := by
    cases rest with
    | nil => rfl
    | cons item rest =>
      obtain ⟨t, rfl, ht⟩ := hrest item rfl
      have hmem : .ok t ∈ (Scan.ofText text).items := by
        rw [show (Scan.ofText text).items = _ from hitems]
        simp
      have := Scan.wellFormed_of_mem_items hmem
      rw [ht] at this
      cases this
  rw [List.append_nil] at hitems
  refine ⟨tokens, Scan.tokens_eq_ok.mpr hitems, ?_⟩
  rw [hlexemes]
  cases others with
  | nil =>
    obtain ⟨p, rfl, rfl⟩ := List.map_eq_singleton_iff.mp hstatements.symm
    rw [List.map_singleton, List.intercalate_singleton]
    exact .tighter (by decide) (hall p List.mem_cons_self)
  | cons other others =>
    have htree : ofStatements first (other :: others) =
        .sequence (tagged other.1) (parts.map Prod.snd) :=
      congrArg (Expr.sequence _) hstatements
    have hlength : 2 ≤ parts.length := by
      have := congrArg List.length hstatements
      simp only [List.length_cons, List.length_map] at this
      omega
    rw [htree]
    exact .sequence hlength hall

/-- A text is read as a program. -/
theorem program_of_ofText {text : String} {tree : RawExpr} (h : ofText text = .ok tree) :
    tree.Program := by
  obtain ⟨tokens, -, hderives⟩ := derives_of_ofText h
  exact hderives.program

end RawExpr

end ComputedField
