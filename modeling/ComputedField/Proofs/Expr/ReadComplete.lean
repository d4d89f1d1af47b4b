import ComputedField.Proofs.Expr.ReadSound

/-!
# What is derived is read

From a derivation of its lexemes the reader finds the tree, given that the items behind them do not
go on with it (`Stops`). The reader walks a chain of operators or indices from the left while the
derivation has its last one at the root; `GoesOn` says how the reader gets from one to the other.
-/

set_option autoImplicit false

namespace ComputedField

/-! ## Where an expression ends -/

/-- How tightly the lexeme binds to what stands before it; zero if it does not bind to it. -/
def Lexeme.grip : Lexeme → Nat
  | mark .leftParen => Precedence.primary + 1
  | mark .leftBracket => Precedence.primary
  | mark .question => Precedence.conditional
  | mark .assign => Precedence.assignment
  | mark m => ((BinaryOp.ofMark? m).map BinaryOp.precedence).getD 0
  | _ => 0

theorem Lexeme.grip_mark (op : BinaryOp) : (mark op.mark).grip = op.precedence := by
  rcases op with op | _ | r | c
  · cases op <;> rfl
  · rfl
  · cases r <;> rfl
  · cases c <;> rfl

theorem BinaryOp.precedence_lt_power {op : BinaryOp} (h : op ≠ power) :
    op.precedence < Precedence.power :=
  Nat.lt_of_le_of_ne (Nat.le_of_lt_succ op.precedence_lt_unary)
    fun hop => h (eq_power_of_precedence hop)

theorem Lexeme.operatorAt_eq_none {level : Nat} {l : Lexeme} (h : l.grip < level) :
    l.operatorAt level = none := by
  cases hop : l.operatorAt level with
  | none => rfl
  | some op =>
    obtain ⟨rfl, -, hlevel⟩ := operatorAt_eq_some.mp hop
    rw [grip_mark, hlevel] at h
    exact absurd h (Nat.lt_irrefl _)

theorem Lexeme.isMark_eq_none {m : Mark} {l : Lexeme} (h : l.grip < (mark m).grip) :
    l.isMark m = none := by
  unfold isMark
  split
  · next hl =>
    rw [hl] at h
    exact absurd h (Nat.lt_irrefl _)
  · rfl

/-- Nothing at the start of the items binds as tightly as `level` to what stands before it. -/
def Stops (level : Nat) (ts : List Item) : Prop :=
  ∀ item ∈ ts.head?, ∃ t : Token, item = .ok t ∧ t.lexeme.grip < level

theorem Stops.mono {level level' : Nat} {ts : List Item} (h : Stops level ts)
    (hle : level ≤ level') : Stops level' ts := by
  intro item hitem
  obtain ⟨t, ht, hgrip⟩ := h item hitem
  exact ⟨t, ht, Nat.lt_of_lt_of_le hgrip hle⟩

theorem Stops.cons {level : Nat} {t : Token} {l : Lexeme} {ts : List Item} (hl : t.lexeme = l)
    (h : l.grip < level) : Stops level (.ok t :: ts) := by
  intro item hitem
  cases hitem
  exact ⟨t, rfl, hl ▸ h⟩

/-! ## Single tokens -/

section Tokens

variable {β : Type} {p : Lexeme → Option β} {t : Token} {b : β} {ts : List Item}

theorem takeIf_some (h : p t.lexeme = some b) :
    takeIf p (.ok t :: ts) = .ok (some ⟨(t, b), ts, Nat.lt_succ_self _⟩) := by
  simp [takeIf, h]

theorem takeIf_none (h : ∀ item ∈ ts.head?, ∃ t : Token, item = .ok t ∧ p t.lexeme = none) :
    takeIf p ts = .ok none := by
  cases ts with
  | nil => rfl
  | cons item ts =>
    obtain ⟨t, rfl, ht⟩ := h item rfl
    simp [takeIf, ht]

theorem Stops.takeIf {level : Nat} (h : Stops level ts)
    (hp : ∀ l : Lexeme, l.grip < level → p l = none) : takeIf p ts = .ok none := by
  refine takeIf_none fun item hitem => ?_
  obtain ⟨t, ht, hgrip⟩ := h item hitem
  exact ⟨t, ht, hp _ hgrip⟩

theorem takeExpected_some {expected : Expected} {stop : Position} (h : p t.lexeme = some b) :
    takeExpected p expected stop (.ok t :: ts) = .ok ⟨(t, b), ts, Nat.lt_succ_self _⟩ := by
  simp [takeExpected, h]

end Tokens

/-- The steps of the reader give `a`, and `rest` is left. -/
def Reads {α : Type} {n : Nat} (x : Except ReadError (Reading α n)) (a : α) (rest : List Item) :
    Prop :=
  ∃ h, x = .ok ⟨a, rest, h⟩

namespace RawExpr

variable {stop : Position} {ts mid rest : List Item} {u v e : RawExpr} {level : Nat}

/-! ## The levels of the reader -/

/-- The function of the reader for the symbol that `level` names. -/
def readAt (stop : Position) (level : Nat) (ts : List Item) :
    Except ReadError (Reading RawExpr ts.length) :=
  if level = Precedence.assignment then readAssignment stop ts
  else if level = Precedence.conditional then readConditional stop ts
  else if level = Precedence.unary then readUnary stop ts
  else if level = Precedence.primary then readIndexed stop ts
  else readChain stop level ts

/-- Behind an operand `u` of its level the reader goes on to `v`: through the operators or indices
of the level, or not at all. -/
def GoesOn (stop : Position) (level : Nat) (u : RawExpr) (mid : List Item) (v : RawExpr)
    (rest : List Item) : Prop :=
  if Precedence.conditional < level ∧ level < Precedence.power then
    Reads (readOperands stop level u mid) v rest
  else if level = Precedence.primary then Reads (readIndices stop u mid) v rest
  else v = u ∧ rest = mid ∧ Stops level mid

theorem reads_readOperands_of_stops (h : Stops level mid) :
    Reads (readOperands stop level u mid) u mid := by
  rw [readOperands, h.takeIf fun l => Lexeme.operatorAt_eq_none]
  exact ⟨_, rfl⟩

theorem reads_readIndices_of_stops (h : Stops Precedence.primary mid) :
    Reads (readIndices stop u mid) u mid := by
  rw [readIndices, h.takeIf fun l hl => Lexeme.isMark_eq_none (m := .leftBracket) hl]
  exact ⟨_, rfl⟩

theorem GoesOn.of_stops (h : Stops level mid) : GoesOn stop level u mid u mid := by
  unfold GoesOn
  split
  · exact reads_readOperands_of_stops h
  · split
    · next hlevel => exact reads_readIndices_of_stops (hlevel ▸ h)
    · exact ⟨rfl, rfl, h⟩

/-! ## From a tighter symbol to a looser one -/

theorem reads_readAssignment (h : Reads (readConditional stop ts) u mid)
    (hstop : Stops Precedence.assignment mid) : Reads (readAssignment stop ts) u mid := by
  obtain ⟨h₁, hread⟩ := h
  have hnone := hstop.takeIf fun l hl => Lexeme.isMark_eq_none (m := .assign) hl
  rw [readAssignment, hread]
  simp only [ok_bind, hnone]
  exact ⟨_, rfl⟩

theorem reads_readConditional (h : Reads (readChain stop Precedence.boolean ts) u mid)
    (hstop : Stops Precedence.conditional mid) : Reads (readConditional stop ts) u mid := by
  obtain ⟨h₁, hread⟩ := h
  have hnone := hstop.takeIf fun l hl => Lexeme.isMark_eq_none (m := .question) hl
  rw [readConditional, hread]
  simp only [ok_bind, hnone]
  exact ⟨_, rfl⟩

theorem reads_readChain (hlevel : level < Precedence.power)
    (h : Reads (readChain stop (level + 1) ts) u mid)
    (hgo : Reads (readOperands stop level u mid) v rest) : Reads (readChain stop level ts) v rest := by
  obtain ⟨h₁, hread⟩ := h
  obtain ⟨h₂, hoperands⟩ := hgo
  rw [readChain, if_pos hlevel, hread]
  simp only [ok_bind, hoperands]
  exact ⟨_, rfl⟩

theorem reads_readPower (h : Reads (readUnary stop ts) u mid) (hstop : Stops Precedence.power mid) :
    Reads (readChain stop Precedence.power ts) u mid := by
  obtain ⟨h₁, hread⟩ := h
  have hnone := hstop.takeIf fun l hl => Lexeme.operatorAt_eq_none hl
  rw [readChain, if_neg (Nat.lt_irrefl _), readPower, hread]
  simp only [ok_bind, hnone]
  exact ⟨_, rfl⟩

/-- A sign in front would be read here, so a primary expression begins with none. -/
theorem reads_readUnary (h : Reads (readIndexed stop ts) u mid)
    (hsign : ∀ item ∈ ts.head?, ∃ t : Token, item = .ok t ∧ t.lexeme.sign? = none) :
    Reads (readUnary stop ts) u mid := by
  rw [readUnary, takeIf_none hsign]
  exact h

theorem reads_readIndexed (h : Reads (readPrimary stop ts) u mid)
    (hgo : Reads (readIndices stop u mid) v rest) : Reads (readIndexed stop ts) v rest := by
  obtain ⟨h₁, hread⟩ := h
  obtain ⟨h₂, hindices⟩ := hgo
  rw [readIndexed, hread]
  simp only [ok_bind, hindices]
  exact ⟨_, rfl⟩

theorem readAt_chain (hlow : Precedence.conditional < level) (hhigh : level ≤ Precedence.power) :
    readAt stop level ts = readChain stop level ts := by
  unfold readAt
  simp only [Precedence.assignment, Precedence.conditional, Precedence.power, Precedence.unary,
    Precedence.primary] at *
  rw [if_neg (by omega), if_neg (by omega), if_neg (by omega), if_neg (by omega)]

/-- What a tighter symbol reads is an operand of this one. -/
theorem reads_readAt (hpos : Precedence.assignment ≤ level) (hlevel : level < Precedence.primary)
    (h : Reads (readAt stop (level + 1) ts) u mid)
    (hsign : level + 1 = Precedence.primary →
      ∀ item ∈ ts.head?, ∃ t : Token, item = .ok t ∧ t.lexeme.sign? = none)
    (hgo : GoesOn stop level u mid v rest) : Reads (readAt stop level ts) v rest := by
  have hcases : level = Precedence.assignment ∨ level = Precedence.conditional ∨
      (Precedence.conditional < level ∧ level < Precedence.power) ∨ level = Precedence.power ∨
      level = Precedence.unary := by
    simp only [Precedence.assignment, Precedence.conditional, Precedence.power, Precedence.unary,
      Precedence.primary] at *
    omega
  rcases hcases with rfl | rfl | hchain | rfl | rfl
  · obtain ⟨rfl, rfl, hstop⟩ := hgo
    exact reads_readAssignment h hstop
  · obtain ⟨rfl, rfl, hstop⟩ := hgo
    exact reads_readConditional h hstop
  · rw [readAt_chain (Nat.lt_succ_of_lt hchain.1) hchain.2] at h
    rw [readAt_chain hchain.1 (Nat.le_of_lt hchain.2)]
    rw [GoesOn, if_pos hchain] at hgo
    exact reads_readChain hchain.2 h hgo
  · obtain ⟨rfl, rfl, hstop⟩ := hgo
    exact reads_readPower h hstop
  · obtain ⟨rfl, rfl, hstop⟩ := hgo
    exact reads_readUnary h (hsign rfl)

/-! ## Derivations are read -/

/-- The reader finds `e` in the items, up to its tokens, and goes on behind it with `mid`. -/
def Finds (stop : Position) (level : Nat) (ts mid : List Item) (e : RawExpr) : Prop :=
  ∃ u, u.bare = e.bare ∧
    ∀ v rest, GoesOn stop level u mid v rest → Reads (readAt stop level ts) v rest

/-- What is found is read where nothing goes on with it on its own level either. -/
theorem reads_of_finds (h : Stops (level + 1) mid → Finds stop level ts mid e)
    (hstop : Stops level mid) : ∃ u, u.bare = e.bare ∧ Reads (readAt stop level ts) u mid := by
  obtain ⟨u, hu, hread⟩ := h (hstop.mono (Nat.le_succ _))
  exact ⟨u, hu, hread u mid (.of_stops hstop)⟩

theorem Finds.primary (h : ∃ u, u.bare = e.bare ∧ Reads (readPrimary stop ts) u mid) :
    Finds stop Precedence.primary ts mid e := by
  obtain ⟨u, hu, hread⟩ := h
  exact ⟨u, hu, fun v rest hgo => reads_readIndexed hread hgo⟩

/-- In parentheses, and as an argument, `ls` is read as `e`. -/
def ReadsPart (stop : Position) (ls : List Lexeme) (e : RawExpr) : Prop :=
  ∀ ts mid, Spells ts ls mid → Stops Precedence.conditional mid →
    ∃ u, u.bare = e.bare ∧ Reads (readConditional stop ts) u mid

/-- Arguments that the reader finds one by one are read as a list. -/
theorem reads_readMoreArguments {parts : List (List Lexeme × RawExpr)} (hne : parts ≠ [])
    (hfind : ∀ p ∈ parts, ReadsPart stop p.1 p.2)
    (hts : Spells ts ([.mark .comma].intercalate (parts.map Prod.fst) ++ [.mark .rightParen]) mid) :
    ∃ us, us.map Expr.bare = parts.map (·.2.bare) ∧ Reads (readMoreArguments stop ts) us mid := by
  induction parts generalizing ts with
  | nil => exact absurd rfl hne
  | cons p parts ih =>
    cases parts with
    | nil =>
      rw [List.map_singleton, List.intercalate_singleton] at hts
      obtain ⟨mid₁, hp, hend⟩ := hts.of_append
      obtain ⟨t, ts₂, rfl, ht, hend⟩ := hend.of_cons
      obtain rfl := hend.eq_of_nil
      obtain ⟨u, hu, h₁, hread⟩ :=
        hfind p List.mem_cons_self ts _ hp (.cons ht (by decide))
      have htake : takeExpected Lexeme.argumentEnd? .argumentEnd stop (.ok t :: ts₂) =
          .ok ⟨(t, false), ts₂, by simp⟩ :=
        takeExpected_some (by rw [ht]; rfl)
      refine ⟨[u], congrArg ([·]) hu, ?_⟩
      rw [readMoreArguments, hread]
      simp only [ok_bind, htake]
      exact ⟨_, rfl⟩
    | cons q parts =>
      rw [List.map_cons, List.map_cons, List.intercalate_cons_cons, List.append_assoc,
        List.append_assoc] at hts
      obtain ⟨mid₁, hp, hend⟩ := hts.of_append
      obtain ⟨t, ts₂, rfl, ht, hend⟩ := hend.of_cons
      obtain ⟨u, hu, h₁, hread⟩ :=
        hfind p List.mem_cons_self ts _ hp (.cons ht (by decide))
      obtain ⟨us, hus, h₂, hmore⟩ :=
        ih (List.cons_ne_nil _ _) (fun r hr => hfind r (List.mem_cons_of_mem p hr)) hend
      have htake : takeExpected Lexeme.argumentEnd? .argumentEnd stop (.ok t :: ts₂) =
          .ok ⟨(t, true), ts₂, by simp⟩ :=
        takeExpected_some (by rw [ht]; rfl)
      refine ⟨u :: us, by rw [List.map_cons, List.map_cons, hu, hus], ?_⟩
      rw [readMoreArguments, hread]
      simp only [ok_bind, htake, if_true, hmore]
      exact ⟨_, rfl⟩

theorem reads_literal {l : Lexeme} {w : Literal} (hl : l.literal? = some (.ok w))
    (hts : Spells ts [l] mid) :
    ∃ u : RawExpr, u.bare = .literal default w ∧ Reads (readPrimary stop ts) u mid := by
  obtain ⟨t, ts₁, rfl, ht, hend⟩ := hts.of_cons
  obtain rfl := hend.eq_of_nil
  refine ⟨.literal (tagged t) w, rfl, ?_⟩
  rw [readPrimary, takeExpected_some (p := some) rfl]
  simp only [ok_bind, ht, hl]
  exact ⟨_, rfl⟩

theorem reads_group {ls : List Lexeme} (hfind : ReadsPart stop ls e)
    (hts : Spells ts (.mark .leftParen :: (ls ++ [.mark .rightParen])) mid) :
    ∃ u : RawExpr, u.bare = .unary default .group e.bare ∧ Reads (readPrimary stop ts) u mid := by
  obtain ⟨t, ts₁, rfl, ht, hts⟩ := hts.of_cons
  obtain ⟨mid₁, hls, hend⟩ := hts.of_append
  obtain ⟨t', ts₂, rfl, ht', hend⟩ := hend.of_cons
  obtain rfl := hend.eq_of_nil
  obtain ⟨u, hu, h₁, hread⟩ := hfind ts₁ _ hls (.cons ht' (by decide))
  have htake : takeExpected (Lexeme.isMark .rightParen) (.mark .rightParen) stop (.ok t' :: ts₂) =
      .ok ⟨(t', ()), ts₂, by simp⟩ :=
    takeExpected_some (Lexeme.isMark_eq_some.mpr ht')
  refine ⟨.unary (tagged t) .group u, congrArg (Expr.unary _ _) hu, ?_⟩
  rw [readPrimary, takeExpected_some (p := some) rfl]
  simp only [ok_bind, ht, Lexeme.literal?, hread, htake]
  exact ⟨_, rfl⟩

theorem literal?_identifier {name : String} (h : name ∉ keywords) :
    (Lexeme.identifier name).literal? = none := by
  simp only [Lexeme.literal?, Literal.ofName?_eq_none.mpr h, Option.map_none]

theorem reads_var {name : String} (hname : name ∉ keywords)
    (hts : Spells ts [.identifier name] mid) (hstop : Stops (Precedence.primary + 1) mid) :
    ∃ u : RawExpr, u.bare = .var default name ∧ Reads (readPrimary stop ts) u mid := by
  obtain ⟨t, ts₁, rfl, ht, hend⟩ := hts.of_cons
  obtain rfl := hend.eq_of_nil
  have hnone := hstop.takeIf fun l hl => Lexeme.isMark_eq_none (m := .leftParen) hl
  refine ⟨.var (tagged t) name, rfl, ?_⟩
  rw [readPrimary, takeExpected_some (p := some) rfl]
  simp only [ok_bind, ht, literal?_identifier hname, hnone]
  exact ⟨_, rfl⟩

/-- A closing parenthesis at once makes a call without arguments; no argument begins with one. -/
theorem reads_readArguments {parts : List (List Lexeme × RawExpr)}
    (hparts : ∀ p ∈ parts, Derives Precedence.conditional p.1 p.2)
    (hfind : ∀ p ∈ parts, ReadsPart stop p.1 p.2)
    (hts : Spells ts ([.mark .comma].intercalate (parts.map Prod.fst) ++ [.mark .rightParen]) mid) :
    ∃ us, us.map Expr.bare = parts.map (·.2.bare) ∧ Reads (readArguments stop ts) us mid := by
  cases parts with
  | nil =>
    obtain ⟨t, ts₁, rfl, ht, hend⟩ := hts.of_cons
    obtain rfl := hend.eq_of_nil
    refine ⟨[], rfl, ?_⟩
    rw [readArguments, takeIf_some (b := ()) (Lexeme.isMark_eq_some.mpr ht)]
    exact ⟨_, rfl⟩
  | cons p parts =>
    obtain ⟨us, hus, hread⟩ := reads_readMoreArguments (List.cons_ne_nil _ _) hfind hts
    refine ⟨us, hus, ?_⟩
    obtain ⟨l, ls, hp, hopens, -⟩ := (hparts p List.mem_cons_self).head
    obtain ⟨behind, hlist⟩ : ∃ behind,
        [.mark .comma].intercalate ((p :: parts).map Prod.fst) ++ [.mark .rightParen] =
          l :: behind := by
      cases parts with
      | nil => exact ⟨_, by rw [List.map_singleton, List.intercalate_singleton, hp]; rfl⟩
      | cons q parts =>
        exact ⟨_, by rw [List.map_cons, List.map_cons, List.intercalate_cons_cons, hp]; rfl⟩
    rw [hlist] at hts
    obtain ⟨t, ts₁, rfl, ht, -⟩ := hts.of_cons
    have hnone : t.lexeme.isMark .rightParen = none := by
      rw [ht]
      unfold Lexeme.isMark
      split
      · next hl =>
        rw [hl] at hopens
        cases hopens
      · rfl
    rw [readArguments, takeIf_none]
    · exact hread
    · intro item hitem
      cases hitem
      exact ⟨t, rfl, hnone⟩

theorem reads_call {name : String} {parts : List (List Lexeme × RawExpr)} (hname : name ∉ keywords)
    (hparts : ∀ p ∈ parts, Derives Precedence.conditional p.1 p.2)
    (hfind : ∀ p ∈ parts, ReadsPart stop p.1 p.2)
    (hts : Spells ts (.identifier name :: .mark .leftParen ::
      ([.mark .comma].intercalate (parts.map Prod.fst) ++ [.mark .rightParen])) mid) :
    ∃ u : RawExpr, u.bare = .call default name (parts.map (·.2.bare)) ∧
      Reads (readPrimary stop ts) u mid := by
  obtain ⟨t, ts₁, rfl, ht, hts⟩ := hts.of_cons
  obtain ⟨t', ts₂, rfl, ht', hts⟩ := hts.of_cons
  obtain ⟨us, hus, h₁, hread⟩ := reads_readArguments hparts hfind hts
  have htake : takeIf (Lexeme.isMark .leftParen) (.ok t' :: ts₂) =
      .ok (some ⟨(t', ()), ts₂, by simp⟩) :=
    takeIf_some (Lexeme.isMark_eq_some.mpr ht')
  refine ⟨.call (tagged t) name us, ?_, ?_⟩
  · rw [Expr.bare_call]
    exact congrArg (Expr.call _ _) hus
  · rw [readPrimary, takeExpected_some (p := some) rfl]
    simp only [ok_bind, ht, literal?_identifier hname, htake, hread]
    exact ⟨_, rfl⟩

/-! ## Nodes with parts -/

section Nodes

variable {t t' : Token} {ts₂ ts₄ : List Item} {c x y l r a i : RawExpr}

theorem reads_assignment (hx : Reads (readConditional stop ts) x (.ok t :: ts₂))
    (ht : t.lexeme = .mark .assign) (hv : Reads (readAssignment stop ts₂) v mid) :
    Reads (readAssignment stop ts) (.assignment (tagged t) x v) mid := by
  obtain ⟨h₁, hx⟩ := hx
  obtain ⟨h₂, hv⟩ := hv
  have htake : takeIf (Lexeme.isMark .assign) (.ok t :: ts₂) = _ :=
    takeIf_some (Lexeme.isMark_eq_some (u := ()).mpr ht)
  rw [readAssignment, hx]
  simp only [ok_bind, htake, hv]
  exact ⟨_, rfl⟩

theorem reads_conditional (hc : Reads (readChain stop Precedence.boolean ts) c (.ok t :: ts₂))
    (ht : t.lexeme = .mark .question) (hx : Reads (readConditional stop ts₂) x (.ok t' :: ts₄))
    (ht' : t'.lexeme = .mark .colon) (hy : Reads (readConditional stop ts₄) y mid) :
    Reads (readConditional stop ts) (.conditional (tagged t) c x y) mid := by
  obtain ⟨h₁, hc⟩ := hc
  obtain ⟨h₂, hx⟩ := hx
  obtain ⟨h₃, hy⟩ := hy
  have htake : takeIf (Lexeme.isMark .question) (.ok t :: ts₂) = _ :=
    takeIf_some (Lexeme.isMark_eq_some (u := ()).mpr ht)
  have htake' : takeExpected (Lexeme.isMark .colon) (.mark .colon) stop (.ok t' :: ts₄) = _ :=
    takeExpected_some (Lexeme.isMark_eq_some (u := ()).mpr ht')
  rw [readConditional, hc]
  simp only [ok_bind, htake, hx, htake', hy]
  exact ⟨_, rfl⟩

theorem reads_operand {op : BinaryOp} (ht : t.lexeme = .mark op.mark) (hop : op ≠ .concat)
    (hr : Reads (readChain stop (op.precedence + 1) ts₂) r mid)
    (hgo : Reads (readOperands stop op.precedence (.binary (tagged t) op l r) mid) v rest) :
    Reads (readOperands stop op.precedence l (.ok t :: ts₂)) v rest := by
  obtain ⟨h₁, hr⟩ := hr
  obtain ⟨h₂, hgo⟩ := hgo
  rw [readOperands, takeIf_some (Lexeme.operatorAt_eq_some.mpr ⟨ht, hop, rfl⟩)]
  simp only [ok_bind, hr, hgo]
  exact ⟨_, rfl⟩

theorem reads_power (hl : Reads (readUnary stop ts) l (.ok t :: ts₂))
    (ht : t.lexeme = .mark .caret) (hr : Reads (readChain stop Precedence.power ts₂) r mid) :
    Reads (readChain stop Precedence.power ts) (.binary (tagged t) .power l r) mid := by
  rw [readChain, if_neg (Nat.lt_irrefl _)] at hr ⊢
  obtain ⟨h₁, hl⟩ := hl
  obtain ⟨h₂, hr⟩ := hr
  have htake : takeIf (Lexeme.operatorAt Precedence.power) (.ok t :: ts₂) = _ :=
    takeIf_some (b := BinaryOp.power) (Lexeme.operatorAt_eq_some.mpr ⟨ht, by decide, rfl⟩)
  rw [readPower, hl]
  simp only [ok_bind, htake, hr]
  exact ⟨_, rfl⟩

theorem reads_sign {op : UnaryOp} (ht : t.lexeme.sign? = some op)
    (hx : Reads (readIndexed stop ts₂) x mid) :
    Reads (readUnary stop (.ok t :: ts₂)) (.unary (tagged t) op x) mid := by
  obtain ⟨h₁, hx⟩ := hx
  rw [readUnary, takeIf_some ht]
  simp only [ok_bind, hx]
  exact ⟨_, rfl⟩

theorem reads_index (ht : t.lexeme = .mark .leftBracket)
    (hi : Reads (readConditional stop ts₂) i (.ok t' :: ts₄))
    (ht' : t'.lexeme = .mark .rightBracket)
    (hgo : Reads (readIndices stop (.element (tagged t) a i) ts₄) v rest) :
    Reads (readIndices stop a (.ok t :: ts₂)) v rest := by
  obtain ⟨h₁, hi⟩ := hi
  obtain ⟨h₂, hgo⟩ := hgo
  have htake' : takeExpected (Lexeme.isMark .rightBracket) (.mark .rightBracket) stop
      (.ok t' :: ts₄) = _ :=
    takeExpected_some (Lexeme.isMark_eq_some (u := ()).mpr ht')
  rw [readIndices, takeIf_some (Lexeme.isMark_eq_some (u := ()).mpr ht)]
  simp only [ok_bind, hi, htake', hgo]
  exact ⟨_, rfl⟩

end Nodes

/-- **What is derived is found**, given that the items behind it do not go on with it more tightly. -/
theorem finds_of_derives {ls : List Lexeme} (h : Derives level ls e)
    (hpos : Precedence.assignment ≤ level) (hts : Spells ts ls mid)
    (hstop : Stops (level + 1) mid) : Finds stop level ts mid e := by
  induction h generalizing ts mid with
  | @tighter level ls e hlevel h ih =>
    -- the tighter symbol ends here, and only then does this one look at what stands behind
    obtain ⟨u, hu, hread⟩ := reads_of_finds (ih (Nat.le_succ_of_le hpos) hts) hstop
    refine ⟨u, hu, fun v rest hgo => reads_readAt hpos hlevel hread ?_ hgo⟩
    intro hprimary item hitem
    obtain ⟨l, ls', rfl, -, hsign⟩ := h.head
    obtain ⟨t, ts', rfl, ht, -⟩ := hts.of_cons
    cases hitem
    exact ⟨t, rfl, ht ▸ hsign hprimary⟩
  | sequence => exact absurd hpos (by decide)
  | assignment _ _ ihx ihv =>
    obtain ⟨mid₁, hxs, hts⟩ := hts.of_append
    obtain ⟨t, ts₂, rfl, ht, hvs⟩ := hts.of_cons
    obtain ⟨x, hx, hreadx⟩ := reads_of_finds (ihx (by decide) hxs) (.cons ht (by decide))
    obtain ⟨v, hv, hreadv⟩ := ihv (by decide) hvs hstop
    refine ⟨.assignment (tagged t) x v, congrArg₂ (Expr.assignment _) hx hv, ?_⟩
    intro w rest hgo
    obtain ⟨rfl, rfl, hend⟩ := hgo
    exact reads_assignment hreadx ht (hreadv v _ (.of_stops hend))
  | conditional _ _ _ ihc ihx ihy =>
    obtain ⟨mid₁, hcs, hts⟩ := hts.of_append
    obtain ⟨t, ts₂, rfl, ht, hts⟩ := hts.of_cons
    obtain ⟨mid₃, hxs, hts⟩ := hts.of_append
    obtain ⟨t', ts₄, rfl, ht', hys⟩ := hts.of_cons
    obtain ⟨c, hc, hreadc⟩ := reads_of_finds (ihc (by decide) hcs) (.cons ht (by decide))
    obtain ⟨x, hx, hreadx⟩ := reads_of_finds (ihx (by decide) hxs) (.cons ht' (by decide))
    obtain ⟨y, hy, hready⟩ := ihy (by decide) hys hstop
    refine ⟨.conditional (tagged t) c x y, ?_, ?_⟩
    · rw [Expr.bare_conditional, Expr.bare_conditional, hc, hx, hy]
    · intro w rest hgo
      obtain ⟨rfl, rfl, hend⟩ := hgo
      exact reads_conditional hreadc ht hreadx ht' (hready y _ (.of_stops hend))
  | @chain _ op _ _ _ _ hpower hconcat _ _ ihl ihr =>
    have hlow := op.conditional_lt_precedence
    have hhigh := op.precedence_lt_power hpower
    obtain ⟨mid₁, hls, hts⟩ := hts.of_append
    obtain ⟨t, ts₂, rfl, ht, hrs⟩ := hts.of_cons
    have hgrip : (Lexeme.mark op.mark).grip < op.precedence + 1 := by
      rw [Lexeme.grip_mark]
      exact Nat.lt_succ_self _
    -- the left operand is of this level too: the reader comes to the operator within its chain
    obtain ⟨l, hl, hreadl⟩ := ihl hpos hls (.cons ht hgrip)
    obtain ⟨r, hr, hreadr⟩ := reads_of_finds (ihr (Nat.le_succ_of_le hpos) hrs) hstop
    rw [readAt_chain (Nat.lt_succ_of_lt hlow) hhigh] at hreadr
    refine ⟨.binary (tagged t) op l r, congrArg₂ (Expr.binary _ _) hl hr, ?_⟩
    intro w rest hgo
    rw [GoesOn, if_pos ⟨hlow, hhigh⟩] at hgo
    refine hreadl w rest ?_
    rw [GoesOn, if_pos ⟨hlow, hhigh⟩]
    exact reads_operand ht hconcat hreadr hgo
  | power _ _ ihl ihr =>
    obtain ⟨mid₁, hls, hts⟩ := hts.of_append
    obtain ⟨t, ts₂, rfl, ht, hrs⟩ := hts.of_cons
    obtain ⟨l, hl, hreadl⟩ := reads_of_finds (ihl (by decide) hls) (.cons ht (by decide))
    obtain ⟨r, hr, hreadr⟩ := ihr hpos hrs hstop
    refine ⟨.binary (tagged t) .power l r, congrArg₂ (Expr.binary _ _) hl hr, ?_⟩
    intro w rest hgo
    obtain ⟨rfl, rfl, hend⟩ := hgo
    exact reads_power hreadl ht (hreadr r _ (.of_stops hend))
  | @sign _ op m _ _ hop _ ih =>
    obtain ⟨t, ts₁, rfl, ht, hts⟩ := hts.of_cons
    obtain ⟨x, hx, hread⟩ := reads_of_finds (ih (by decide) hts) hstop
    refine ⟨.unary (tagged t) op x, congrArg (Expr.unary _ _) hx, ?_⟩
    intro w rest hgo
    obtain ⟨rfl, rfl, -⟩ := hgo
    exact reads_sign (ht ▸ Lexeme.sign?_eq_some.mpr ⟨m, hop, rfl⟩) hread
  | element _ _ iha ihi =>
    obtain ⟨mid₁, has, hts⟩ := hts.of_append
    obtain ⟨t, ts₂, rfl, ht, hts⟩ := hts.of_cons
    obtain ⟨mid₃, his, hts⟩ := hts.of_append
    obtain ⟨t', ts₄, rfl, ht', hts⟩ := hts.of_cons
    obtain rfl := hts.eq_of_nil
    -- like an operand on the left, the array may end in an index
    obtain ⟨a, ha, hreada⟩ := iha hpos has (.cons ht (by decide))
    obtain ⟨i, hi, hreadi⟩ := reads_of_finds (ihi (by decide) his) (.cons ht' (by decide))
    refine ⟨.element (tagged t) a i, congrArg₂ (Expr.element _) ha hi, ?_⟩
    intro w rest hgo
    exact hreada w rest (reads_index ht hreadi ht' hgo)
  | integer hn => exact .primary (reads_literal (by simp only [Lexeme.literal?, hn]) hts)
  | decimal hd => exact .primary (reads_literal (by simp only [Lexeme.literal?, hd]) hts)
  | string => exact .primary (reads_literal rfl hts)
  | @boolean _ b => exact .primary (reads_literal (by cases b <;> rfl) hts)
  | null => exact .primary (reads_literal rfl hts)
  | group _ ih =>
    exact .primary (reads_group (fun ts mid hts => reads_of_finds (ih (by decide) hts)) hts)
  | var hname => exact .primary (reads_var hname hts hstop)
  | call hname hparts ih =>
    refine .primary ?_
    rw [Expr.bare_call, List.map_map]
    exact reads_call hname hparts (fun p hp ts mid hts => reads_of_finds (ih p hp (by decide) hts))
      hts

end RawExpr

end ComputedField
