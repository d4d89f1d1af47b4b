import ComputedField.Proofs.Expr.Exact
import ComputedField.Proofs.Expr.Programs

/-!
# The reader fails at the first token that cannot stand where it does

A reader is prompt if it fails at an item that it has just looked at, if the tokens it took before
can still be completed, and if what stands behind the item it looked at last is of no account
(`Prompt`). Every function of the grammar is prompt.
-/

set_option autoImplicit false

namespace ComputedField

/-- Items that are tokens tell which. -/
theorem tokens_inj {tokens tokens' : List Token}
    (h : (tokens.map Except.ok : List Item) = tokens'.map .ok) : tokens = tokens' := by
  have hinj : Function.Injective (Except.ok : Token → Item) := fun t t' h => Except.ok.inj h
  exact hinj.list_map h

theorem Spells.length {ts rest : List Item} {ls : List Lexeme} (h : Spells ts ls rest) :
    ts.length = ls.length + rest.length := by
  obtain ⟨tokens, rfl, rfl⟩ := h
  simp

theorem Spells.unique {ts rest : List Item} {ls ls' : List Lexeme} (h : Spells ts ls rest)
    (h' : Spells ts ls' rest) : ls = ls' := by
  obtain ⟨tokens, rfl, rfl⟩ := h
  obtain ⟨tokens', htokens, rfl⟩ := h'
  rw [tokens_inj (List.append_cancel_right htokens)]

/-- An expression takes a token at least. -/
theorem Derives.shorter {level : Nat} {ls : List Lexeme} {e : RawExpr} {ts rest : List Item}
    (h : Derives level ls e) (hts : Spells ts ls rest) : rest.length < ts.length := by
  obtain ⟨l, ls, rfl, -⟩ := h.head
  rw [hts.length, List.length_cons]
  omega

/-! ## Rows of lexemes that can be completed -/

/-- Written lexemes behind `ls` make it one of the rows that `D` holds of. -/
def Completes (D : List Lexeme → Prop) (ls : List Lexeme) : Prop :=
  ∃ more : List Lexeme, (∀ l ∈ more, l.wellFormed = true) ∧ D (ls ++ more)

section Completes

variable {D D' : List Lexeme → Prop} {ls : List Lexeme}

theorem Completes.self (h : D ls) : Completes D ls := by
  refine ⟨[], ?_, by rwa [List.append_nil]⟩
  intro l hl
  cases hl

theorem Completes.imp (h : Completes D ls) (hD : ∀ ls, D ls → D' ls) : Completes D' ls := by
  obtain ⟨more, hmore, hls⟩ := h
  exact ⟨more, hmore, hD _ hls⟩

/-- A row is completed as a part of `whole`, with `after` behind it. -/
theorem Completes.within {whole : List Lexeme} (h : Completes D ls) (after : List Lexeme)
    (hafter : ∀ l ∈ after, l.wellFormed = true)
    (hD : ∀ more, D (ls ++ more) → D' (whole ++ (more ++ after))) : Completes D' whole := by
  obtain ⟨more, hmore, hls⟩ := h
  refine ⟨more ++ after, ?_, hD more hls⟩
  intro l hl
  rcases List.mem_append.mp hl with hl | hl
  · exact hmore l hl
  · exact hafter l hl

end Completes

/-- The lexemes make up an expression of the level. -/
def Sentence (level : Nat) (ls : List Lexeme) : Prop := ∃ e : RawExpr, Derives level ls e

/-! ## Prompt readers -/

/-- The error is about the next item. -/
inductive MetAt (stop : Position) : List Item → ReadError → Prop where
  | scan {e : ScanError} {ts : List Item} : MetAt stop (.error e :: ts) (.scan e)
  | unexpected {ts : List Item} {t : Token} (asked : Expected) : nextToken stop ts = .ok t →
      MetAt stop ts (.unexpected t asked)
  | literal {t : Token} {fault : GrammarFault} {ts : List Item} :
      t.lexeme.literal? = some (.error fault) → MetAt stop (.ok t :: ts) (.grammar ⟨t.pos, fault⟩)

namespace Reader

variable {α β γ : Type}

/-- On `ts` the reader fails at an item it has just looked at, whatever stands behind this one, and
`V` holds of the tokens before it. -/
def FailsAt (stop : Position) (m : Reader α) (ts : List Item) (V : List Lexeme → Prop) : Prop :=
  ∀ e, m ts = .error e → ∃ (tokens : List Token) (rest : List Item),
    ts = tokens.map .ok ++ rest ∧ MetAt stop rest e ∧ V (tokens.map Token.lexeme) ∧
      ∀ rest', rest'.head? = rest.head? → m (tokens.map .ok ++ rest') = .error e

/-- On `ts` the reader takes tokens and looks at one item behind them at most. -/
def LooksAhead (m : Reader α) (ts : List Item) : Prop :=
  ∀ a rest, m ts = .ok (a, rest) → ∃ tokens : List Token, ts = tokens.map .ok ++ rest ∧
    ∀ rest', rest'.head? = rest.head? → m (tokens.map .ok ++ rest') = .ok (a, rest')

structure Prompt (stop : Position) (m : Reader α) (ts : List Item) (V : List Lexeme → Prop) :
    Prop where
  fails : FailsAt stop m ts V
  looks : LooksAhead m ts

variable {stop : Position} {ts : List Item} {V V' : List Lexeme → Prop} {x : Reader α}
  {k : α → Reader β}

theorem head?_tokens_append {tokens : List Token} {rest rest' : List Item}
    (h : rest'.head? = rest.head?) :
    (tokens.map Except.ok ++ rest').head? = (tokens.map Except.ok ++ rest : List Item).head? := by
  rw [List.head?_append, List.head?_append, h]

theorem FailsAt.imp (h : FailsAt stop x ts V) (hV : ∀ ls, V ls → V' ls) :
    FailsAt stop x ts V' := by
  intro e he
  obtain ⟨tokens, rest, hts, hmet, hls, hlocal⟩ := h e he
  exact ⟨tokens, rest, hts, hmet, hV _ hls, hlocal⟩

theorem FailsAt.bind (hx : Prompt stop x ts V)
    (hk : ∀ a ls rest, x ts = .ok (a, rest) → Spells ts ls rest →
      FailsAt stop (k a) rest fun ls' => V (ls ++ ls')) : FailsAt stop (x >>= k) ts V := by
  intro e he
  rw [bind_apply] at he
  rcases bind_eq_error.mp he with he | ⟨⟨a, mid⟩, ha, hk'⟩
  · obtain ⟨tokens, rest, hts, hmet, hV, hlocal⟩ := hx.fails e he
    refine ⟨tokens, rest, hts, hmet, hV, fun rest' hrest' => ?_⟩
    rw [bind_apply, hlocal rest' hrest', error_bind]
  · obtain ⟨tokens, rfl, hlocal⟩ := hx.looks a mid ha
    obtain ⟨tokens', rest, rfl, hmet, hV, hlocal'⟩ := hk a _ mid ha ⟨tokens, rfl, rfl⟩ e hk'
    refine ⟨tokens ++ tokens', rest, by simp, hmet, by simpa using hV, fun rest' hrest' => ?_⟩
    rw [List.map_append, List.append_assoc, bind_apply, hlocal _ (head?_tokens_append hrest')]
    exact hlocal' rest' hrest'

theorem FailsAt.bind_pure (h : FailsAt stop x ts V) (f : α → β) :
    FailsAt stop (x >>= fun a => pure (f a)) ts V := by
  intro e he
  rw [bind_apply] at he
  rcases bind_eq_error.mp he with he | ⟨p, -, hp⟩
  · obtain ⟨tokens, rest, hts, hmet, hV, hlocal⟩ := h e he
    refine ⟨tokens, rest, hts, hmet, hV, fun rest' hrest' => ?_⟩
    rw [bind_apply, hlocal rest' hrest', error_bind]
  · cases hp

theorem LooksAhead.bind (hx : LooksAhead x ts)
    (hk : ∀ a ls rest, x ts = .ok (a, rest) → Spells ts ls rest → LooksAhead (k a) rest) :
    LooksAhead (x >>= k) ts := by
  intro b rest hb
  rw [bind_apply] at hb
  obtain ⟨⟨a, mid⟩, ha, hk'⟩ := bind_eq_ok.mp hb
  obtain ⟨tokens, rfl, hlocal⟩ := hx a mid ha
  obtain ⟨tokens', rfl, hlocal'⟩ := hk a _ mid ha ⟨tokens, rfl, rfl⟩ b rest hk'
  refine ⟨tokens ++ tokens', by simp, fun rest' hrest' => ?_⟩
  rw [List.map_append, List.append_assoc, bind_apply, hlocal _ (head?_tokens_append hrest')]
  exact hlocal' rest' hrest'

namespace Prompt

theorem bind (hx : Prompt stop x ts V)
    (hk : ∀ a ls rest, x ts = .ok (a, rest) → Spells ts ls rest →
      Prompt stop (k a) rest fun ls' => V (ls ++ ls')) : Prompt stop (x >>= k) ts V :=
  ⟨.bind hx fun a ls rest ha hls => (hk a ls rest ha hls).fails,
    .bind hx.looks fun a ls rest ha hls => (hk a ls rest ha hls).looks⟩

theorem imp (h : Prompt stop x ts V) (hV : ∀ ls, V ls → V' ls) : Prompt stop x ts V' :=
  ⟨h.fails.imp hV, h.looks⟩

theorem pure (a : α) : Prompt stop (pure a) ts V := by
  refine ⟨fun e he => ?_, fun b rest hb => ?_⟩
  · cases he
  · cases hb
    exact ⟨[], rfl, fun rest' _ => rfl⟩

/-- A reader that fails at the next item fails at once. -/
theorem here {e : ReadError} (hV : V []) (hmet : MetAt stop ts e)
    (h : ∀ ts', ts'.head? = ts.head? → x ts' = .error e) : Prompt stop x ts V := by
  refine ⟨fun e' he => ?_, fun a rest ha => ?_⟩
  · rw [h ts rfl] at he
    cases he
    exact ⟨[], ts, rfl, hmet, hV, h⟩
  · rw [h ts rfl] at ha
    cases ha

/-- A reader that looks at the next item and leaves it goes on as another one. -/
theorem left {x' : Reader α} (h : Prompt stop x' ts V)
    (hx : ∀ ts', ts'.head? = ts.head? → x ts' = x' ts') : Prompt stop x ts V := by
  refine ⟨fun e he => ?_, fun a rest ha => ?_⟩
  · rw [hx ts rfl] at he
    obtain ⟨tokens, rest, rfl, hmet, hls, hlocal⟩ := h.fails e he
    refine ⟨tokens, rest, rfl, hmet, hls, fun rest' hrest' => ?_⟩
    rw [hx _ (head?_tokens_append hrest'), hlocal rest' hrest']
  · rw [hx ts rfl] at ha
    obtain ⟨tokens, rfl, hlocal⟩ := h.looks a rest ha
    refine ⟨tokens, rfl, fun rest' hrest' => ?_⟩
    rw [hx _ (head?_tokens_append hrest'), hlocal rest' hrest']

/-- A reader that takes the next token goes on as another one. -/
theorem taken {x' : Reader α} {t : Token} (h : Prompt stop x' ts fun ls => V (t.lexeme :: ls))
    (hx : ∀ ts', x (.ok t :: ts') = x' ts') : Prompt stop x (.ok t :: ts) V := by
  refine ⟨fun e he => ?_, fun a rest ha => ?_⟩
  · rw [hx] at he
    obtain ⟨tokens, rest, rfl, hmet, hls, hlocal⟩ := h.fails e he
    refine ⟨t :: tokens, rest, rfl, hmet, hls, fun rest' hrest' => ?_⟩
    exact (hx _).trans (hlocal rest' hrest')
  · rw [hx] at ha
    obtain ⟨tokens, rfl, hlocal⟩ := h.looks a rest ha
    exact ⟨t :: tokens, rfl, fun rest' hrest' => (hx _).trans (hlocal rest' hrest')⟩

/-! ### Single tokens -/

section Tokens

variable {p : Lexeme → Option β}

theorem optional_bind {k : Option (Token × β) → Reader γ} (hV : V [])
    (hnone : Prompt stop (k none) ts V)
    (hsome : ∀ t b rest, rest.length < ts.length → p t.lexeme = some b →
      Prompt stop (k (some (t, b))) rest fun ls => V (t.lexeme :: ls)) :
    Prompt stop (optional p >>= k) ts V := by
  cases ts with
  | nil =>
    refine hnone.left fun ts' hts' => ?_
    rw [List.head?_eq_none_iff.mp hts']
    rfl
  | cons item ts =>
    cases item with
    | error e =>
      refine .here hV .scan fun ts' hts' => ?_
      obtain ⟨ts', rfl⟩ := List.head?_eq_some_iff.mp hts'
      rfl
    | ok t =>
      cases hb : p t.lexeme with
      | none =>
        refine hnone.left fun ts' hts' => ?_
        obtain ⟨ts', rfl⟩ := List.head?_eq_some_iff.mp hts'
        simp [bind_apply, optional, takeIf, hb]
      | some b =>
        refine (hsome t b ts (Nat.lt_succ_self _) hb).taken fun ts' => ?_
        simp [bind_apply, optional, takeIf, hb]

theorem optional (p : Lexeme → Option β) (hV : V []) : Prompt stop (optional p) ts V := by
  have h : Prompt stop (Reader.optional p >>= Pure.pure) ts V :=
    optional_bind hV (.pure _) fun _ _ _ _ _ => .pure _
  rwa [bind_pure] at h

/-- A token has to be there. It may still be refused when it was taken. -/
theorem expected_bind_refuse {asked : Expected} {k : Token × β → Reader γ} (hV : V [])
    (hk : ∀ t b rest, ts = .ok t :: rest → p t.lexeme = some b →
      (∃ e, k (t, b) = refuse e ∧ MetAt stop ts e) ∨
        Prompt stop (k (t, b)) rest fun ls => V (t.lexeme :: ls)) :
    Prompt stop (expected p asked stop >>= k) ts V := by
  cases ts with
  | nil =>
    refine .here hV (.unexpected asked rfl) fun ts' hts' => ?_
    rw [List.head?_eq_none_iff.mp hts']
    rfl
  | cons item ts =>
    cases item with
    | error e =>
      refine .here hV .scan fun ts' hts' => ?_
      obtain ⟨ts', rfl⟩ := List.head?_eq_some_iff.mp hts'
      rfl
    | ok t =>
      cases hb : p t.lexeme with
      | none =>
        refine .here hV (.unexpected asked rfl) fun ts' hts' => ?_
        obtain ⟨ts', rfl⟩ := List.head?_eq_some_iff.mp hts'
        simp [bind_apply, expected, takeExpected, hb, forget, Except.map]
      | some b =>
        have hgo (ts' : List Item) :
            (expected p asked stop >>= k) (.ok t :: ts') = k (t, b) ts' := by
          simp [bind_apply, expected, takeExpected, hb, forget, Except.map]
        rcases hk t b ts rfl hb with ⟨e, he, hmet⟩ | h
        · refine .here hV hmet fun ts' hts' => ?_
          obtain ⟨ts', rfl⟩ := List.head?_eq_some_iff.mp hts'
          rw [hgo, he]
          rfl
        · exact h.taken hgo

theorem expected_bind {asked : Expected} {k : Token × β → Reader γ} (hV : V [])
    (hk : ∀ t b rest, rest.length < ts.length → p t.lexeme = some b →
      Prompt stop (k (t, b)) rest fun ls => V (t.lexeme :: ls)) :
    Prompt stop (expected p asked stop >>= k) ts V := by
  refine .expected_bind_refuse hV fun t b rest hts hb => .inr (hk t b rest ?_ hb)
  rw [hts]
  exact Nat.lt_succ_self _

end Tokens

end Prompt

theorem optional_eq_ok {p : Lexeme → Option β} {found : Option (Token × β)} {rest : List Item}
    (h : optional p ts = .ok (found, rest)) :
    (found = none ∧ rest = ts) ∨
      ∃ t b, found = some (t, b) ∧ ts = .ok t :: rest ∧ p t.lexeme = some b := by
  obtain ⟨taken, htaken, h⟩ := bind_eq_ok.mp h
  cases taken with
  | none =>
    cases h
    exact .inl ⟨rfl, rfl⟩
  | some r =>
    cases h
    obtain ⟨hts, hb⟩ := gives_takeIf p ts _ htaken r rfl
    exact .inr ⟨_, _, rfl, hts, hb⟩

/-! ## The grammar is prompt -/

open RawExpr

variable {level : Nat} {n : Nat}

/-- The reader is prompt, and what it takes is an expression of the level. -/
structure Parses (stop : Position) (level : Nat) (m : Reader RawExpr) (ts : List Item) : Prop where
  prompt : Prompt stop m ts (Completes (Sentence level))
  sentence : ∀ e rest, m ts = .ok (e, rest) → ∃ ls, Spells ts ls rest ∧ Sentence level ls

/-- What the reader takes is known from its derivation. -/
theorem Parses.of_gives {read : Except ReadError (Reading RawExpr n)} {m : Reader RawExpr}
    (hm : m ts = forget read) (h : Gives read (Derived level ts))
    (hprompt : Prompt stop m ts (Completes (Sentence level))) : Parses stop level m ts := by
  refine ⟨hprompt, fun e rest he => ?_⟩
  rw [hm] at he
  cases read with
  | error e => cases he
  | ok r =>
    cases he
    obtain ⟨ls, hls, hderives⟩ := h r rfl
    exact ⟨ls, hls, _, hderives⟩

theorem Parses.taken {m : Reader RawExpr} (h : Parses stop level m ts) {e : RawExpr}
    {rest : List Item} {ls : List Lexeme} (he : m ts = .ok (e, rest)) (hls : Spells ts ls rest) :
    rest.length < ts.length ∧ Sentence level ls := by
  obtain ⟨ls', hls', e', hderives⟩ := h.sentence e rest he
  obtain rfl := hls.unique hls'
  exact ⟨hderives.shorter hls, e', hderives⟩

theorem Prompt.bind_parses {y : Reader RawExpr} {k : RawExpr → Reader γ}
    (hy : Parses stop level y ts) (hV : ∀ ls, Completes (Sentence level) ls → V ls)
    (hk : ∀ e ls rest, rest.length < ts.length → Sentence level ls →
      Prompt stop (k e) rest fun ls' => V (ls ++ ls')) : Prompt stop (y >>= k) ts V := by
  refine .bind (hy.prompt.imp hV) fun e ls rest he hls => ?_
  obtain ⟨hshorter, hsentence⟩ := hy.taken he hls
  exact hk e ls rest hshorter hsentence

end Reader

end ComputedField
