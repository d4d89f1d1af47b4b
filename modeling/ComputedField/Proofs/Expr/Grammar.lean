import ComputedField.Expr.Print
import ComputedField.Expr.Reading
import ComputedField.Proofs.Expr.Tags

/-!
# The grammar

`Derives level ls e` says that the lexemes `ls` make up the expression `e` in the grammar, where
`level` names a symbol of it by how loosely it binds:

    sequence       := assignment (";" assignment)*
    assignment     := conditional ("=" assignment)?
    conditional    := boolean ("?" conditional ":" conditional)?
    boolean        := (boolean ("&&" | "||"))? comparison
    comparison     := (comparison ("<" | "<=" | "==" | ">=" | ">" | "!="))? additive
    additive       := (additive ("+" | "-"))? multiplicative
    multiplicative := (multiplicative ("*" | "/" | "%"))? power
    power          := unary ("^" power)?
    unary          := ("+" | "-" | "!")? primary
    primary        := primary "[" conditional "]"
                    | number | string | "(" conditional ")" | "true" | "false" | "null" | name
                    | name "(" (conditional ("," conditional)*)? ")"

The relation knows nothing of how a text is read. The tokens and notes of `e` are free: a derivation
is one of the bare tree.
-/

set_option autoImplicit false

namespace ComputedField

/-! ## Operators among the levels -/

theorem BinaryOp.conditional_lt_precedence (op : BinaryOp) :
    Precedence.conditional < op.precedence := by
  cases op with
  | arithmetic op => cases op <;> decide
  | concat | relation | connective => exact of_decide_eq_true rfl

theorem BinaryOp.precedence_lt_unary (op : BinaryOp) : op.precedence < Precedence.unary := by
  cases op with
  | arithmetic op => cases op <;> decide
  | concat | relation | connective => exact of_decide_eq_true rfl

/-! ## Derivations -/

/-- The lexeme may be the first of an expression. -/
def Lexeme.opens : Lexeme → Bool
  | identifier _ | string _ | integer _ | decimal _ => true
  | mark m => m == .leftParen || m == .plus || m == .minus || m == .bang
  | endOfInput => false

/-- The names that stand for literals. -/
def keywords : List String := ["true", "false", "null"]

/-- The lexemes make up the expression as the symbol that `level` names. -/
inductive Derives : Nat → List Lexeme → RawExpr → Prop where
  /-- What binds tighter may stand where something looser may. -/
  | tighter {level : Nat} {ls : List Lexeme} {e : RawExpr} : level < Precedence.primary →
      Derives (level + 1) ls e → Derives level ls e
  | sequence {tag : Tag Unit} {parts : List (List Lexeme × RawExpr)} : 2 ≤ parts.length →
      (∀ p ∈ parts, Derives Precedence.assignment p.1 p.2) →
      Derives Precedence.sequence ([.mark .semicolon].intercalate (parts.map Prod.fst))
        (.sequence tag (parts.map Prod.snd))
  | assignment {tag : Tag Unit} {xs vs : List Lexeme} {x v : RawExpr} :
      Derives Precedence.conditional xs x → Derives Precedence.assignment vs v →
      Derives Precedence.assignment (xs ++ .mark .assign :: vs) (.assignment tag x v)
  | conditional {tag : Tag Unit} {cs xs ys : List Lexeme} {c x y : RawExpr} :
      Derives Precedence.boolean cs c → Derives Precedence.conditional xs x →
      Derives Precedence.conditional ys y →
      Derives Precedence.conditional (cs ++ .mark .question :: (xs ++ .mark .colon :: ys))
        (.conditional tag c x y)
  /-- A chain of operators groups to the left. No text says `concat` before its types are known. -/
  | chain {tag : Tag Unit} {op : BinaryOp} {ls rs : List Lexeme} {l r : RawExpr} :
      op ≠ .power → op ≠ .concat → Derives op.precedence ls l →
      Derives (op.precedence + 1) rs r →
      Derives op.precedence (ls ++ .mark op.mark :: rs) (.binary tag op l r)
  | power {tag : Tag Unit} {ls rs : List Lexeme} {l r : RawExpr} :
      Derives Precedence.unary ls l → Derives Precedence.power rs r →
      Derives Precedence.power (ls ++ .mark .caret :: rs) (.binary tag .power l r)
  | sign {tag : Tag Unit} {op : UnaryOp} {m : Mark} {ls : List Lexeme} {x : RawExpr} :
      op.mark? = some m → Derives Precedence.primary ls x →
      Derives Precedence.unary (.mark m :: ls) (.unary tag op x)
  | element {tag : Tag Unit} {as is : List Lexeme} {a i : RawExpr} :
      Derives Precedence.primary as a → Derives Precedence.conditional is i →
      Derives Precedence.primary (as ++ .mark .leftBracket :: (is ++ [.mark .rightBracket]))
        (.element tag a i)
  | integer {tag : Tag Unit} {digits : String} {n : Nat} : digitsValue? digits.toList = some n →
      Derives Precedence.primary [.integer digits] (.literal tag (.integer n))
  | decimal {tag : Tag Unit} {digits : String} {d : Decimal} :
      Decimal.ofDigits? digits.toList = some d →
      Derives Precedence.primary [.decimal digits] (.literal tag (.decimal d))
  | string {tag : Tag Unit} {s : String} :
      Derives Precedence.primary [.string s] (.literal tag (.string s))
  | boolean {tag : Tag Unit} {b : Bool} :
      Derives Precedence.primary [.identifier (if b then "true" else "false")]
        (.literal tag (.boolean b))
  | null {tag : Tag Unit} : Derives Precedence.primary [.identifier "null"] (.literal tag .null)
  | group {tag : Tag Unit} {ls : List Lexeme} {x : RawExpr} :
      Derives Precedence.conditional ls x →
      Derives Precedence.primary (.mark .leftParen :: (ls ++ [.mark .rightParen]))
        (.unary tag .group x)
  | var {tag : Tag Unit} {name : String} : name ∉ keywords →
      Derives Precedence.primary [.identifier name] (.var tag name)
  | call {tag : Tag Unit} {name : String} {parts : List (List Lexeme × RawExpr)} :
      name ∉ keywords → (∀ p ∈ parts, Derives Precedence.conditional p.1 p.2) →
      Derives Precedence.primary
        (.identifier name :: .mark .leftParen ::
          ([.mark .comma].intercalate (parts.map Prod.fst) ++ [.mark .rightParen]))
        (.call tag name (parts.map Prod.snd))

namespace Derives

variable {level : Nat} {ls : List Lexeme} {e : RawExpr}

/-- What a symbol makes up, a looser one makes up as well. -/
theorem loosen {loose : Nat} (h : Derives level ls e) (hle : loose ≤ level)
    (hlevel : level ≤ Precedence.primary) : Derives loose ls e := by
  obtain ⟨k, rfl⟩ := Nat.exists_eq_add_of_le hle
  induction k with
  | zero => exact h
  | succ k ih => exact ih (.tighter hlevel h) (Nat.le_add_right _ _) (Nat.le_of_succ_le hlevel)

/-- The first lexeme. Nothing that binds as a primary expression begins with a sign. -/
theorem head (h : Derives level ls e) :
    ∃ l ls', ls = l :: ls' ∧ l.opens = true ∧ (level = Precedence.primary → l.sign? = none) := by
  induction h with
  | tighter hlevel _ ih =>
    obtain ⟨l, ls', rfl, hl, -⟩ := ih
    exact ⟨l, ls', rfl, hl, fun h => absurd h (Nat.ne_of_lt hlevel)⟩
  | @sequence tag parts hparts _ ih =>
    obtain ⟨p, q, parts, rfl⟩ : ∃ p q ps, parts = p :: q :: ps := by
      rcases parts with _ | ⟨p, _ | ⟨q, ps⟩⟩
      · simp at hparts
      · simp at hparts
      · exact ⟨p, q, ps, rfl⟩
    obtain ⟨l, ls', hp, hl, -⟩ := ih p List.mem_cons_self
    simp only [List.map_cons, List.intercalate_cons_cons, hp]
    exact ⟨l, _, rfl, hl, fun h => by cases h⟩
  | assignment _ _ ih _ | conditional _ _ _ ih _ _ | power _ _ ih _ =>
    obtain ⟨l, ls', rfl, hl, -⟩ := ih
    exact ⟨l, _, rfl, hl, fun h => by cases h⟩
  | @chain _ op _ _ _ _ _ _ _ _ ih _ =>
    obtain ⟨l, ls', rfl, hl, -⟩ := ih
    have hop := Nat.lt_succ_of_lt op.precedence_lt_unary
    exact ⟨l, _, rfl, hl, fun h => absurd h (Nat.ne_of_lt hop)⟩
  | @sign _ op m _ _ hop _ _ =>
    refine ⟨.mark m, _, rfl, ?_, fun h => by cases h⟩
    cases op <;> cases hop <;> rfl
  | element _ _ ih _ =>
    obtain ⟨l, ls', rfl, hl, hsign⟩ := ih
    exact ⟨l, _, rfl, hl, hsign⟩
  | _ => exact ⟨_, _, rfl, rfl, fun _ => rfl⟩

section Parts

variable {γ : Type} {cs : List γ} {f : γ → List Lexeme} {g : γ → RawExpr}

theorem sequence_map (hlength : 2 ≤ cs.length)
    (h : ∀ c ∈ cs, Derives Precedence.assignment (f c) (g c)) :
    Derives Precedence.sequence ([.mark .semicolon].intercalate (cs.map f))
      (.sequence default (cs.map g)) := by
  have hparts : ∀ p ∈ cs.map fun c => (f c, g c), Derives Precedence.assignment p.1 p.2 := by
    intro p hp
    obtain ⟨c, hc, rfl⟩ := List.mem_map.mp hp
    exact h c hc
  have hderives := @sequence default _ (by simpa using hlength) hparts
  rwa [List.map_map, List.map_map] at hderives

theorem call_map {name : String} (hname : name ∉ keywords)
    (h : ∀ c ∈ cs, Derives Precedence.conditional (f c) (g c)) :
    Derives Precedence.primary (.identifier name :: .mark .leftParen ::
      ([.mark .comma].intercalate (cs.map f) ++ [.mark .rightParen]))
      (.call default name (cs.map g)) := by
  have hparts : ∀ p ∈ cs.map fun c => (f c, g c), Derives Precedence.conditional p.1 p.2 := by
    intro p hp
    obtain ⟨c, hc, rfl⟩ := List.mem_map.mp hp
    exact h c hc
  have hderives := @call default name _ hname hparts
  rwa [List.map_map, List.map_map] at hderives

end Parts

/-! ## The shapes of derivable trees -/

theorem plain (h : Derives level ls e) (hlevel : Precedence.conditional ≤ level) : e.Plain := by
  induction h with
  | tighter _ _ ih => exact ih (Nat.le_succ_of_le hlevel)
  | sequence | assignment => exact absurd hlevel (by decide)
  | conditional _ _ _ ihc ihx ihy => exact .conditional (ihc (by decide)) (ihx hlevel) (ihy hlevel)
  | chain _ _ _ _ ihl ihr => exact .binary (ihl hlevel) (ihr (Nat.le_succ_of_le hlevel))
  | power _ _ ihl ihr => exact .binary (ihl (by decide)) (ihr hlevel)
  | sign _ _ ih => exact .unary (ih (by decide))
  | element _ _ iha ihi => exact .element (iha hlevel) (ihi (by decide))
  | integer | decimal | string | boolean | null => exact .literal _ _
  | group _ ih => exact .unary (ih (by decide))
  | var => exact .var _ _
  | call _ _ ih =>
    refine .call fun a ha => ?_
    obtain ⟨p, hp, rfl⟩ := List.mem_map.mp ha
    exact ih p hp (by decide)

theorem statement (h : Derives Precedence.assignment ls e) : e.Statement := by
  generalize hlevel : Precedence.assignment = level at h
  induction h with
  | tighter _ h _ =>
    subst hlevel
    exact .plain (h.plain (by decide))
  | assignment hx _ _ ih => exact .assignment (hx.plain (by decide)) (ih rfl)
  | @chain _ op =>
    have := op.conditional_lt_precedence
    rw [← hlevel] at this
    exact absurd this (by decide)
  | _ => cases hlevel

/-- One statement, or several with semicolons between them. -/
theorem statements (h : Derives Precedence.sequence ls e) :
    Derives Precedence.assignment ls e ∨
      ∃ (tag : Tag Unit) (parts : List (List Lexeme × RawExpr)), 2 ≤ parts.length ∧
        (∀ p ∈ parts, Derives Precedence.assignment p.1 p.2) ∧
        ls = [.mark .semicolon].intercalate (parts.map Prod.fst) ∧
        e = .sequence tag (parts.map Prod.snd) := by
  generalize hlevel : Precedence.sequence = level at h
  cases h with
  | tighter _ h =>
    subst hlevel
    exact .inl h
  | @sequence tag parts hlength hparts => exact .inr ⟨tag, parts, hlength, hparts, rfl, rfl⟩
  | @chain _ op =>
    have := op.conditional_lt_precedence
    rw [← hlevel] at this
    exact absurd this (by decide)
  | _ => cases hlevel

/-- What is derived is a program. -/
theorem program (h : Derives Precedence.sequence ls e) : e.Program := by
  rcases h.statements with h | ⟨tag, parts, -, hparts, -, rfl⟩
  · exact .statement h.statement
  · refine .sequence fun s hs => ?_
    obtain ⟨p, hp, rfl⟩ := List.mem_map.mp hs
    exact (hparts p hp).statement

/-! ## Derivations of bare trees -/

/-- Other trees in the place of those that a row of lexemes makes up. -/
theorem replace_parts {parts : List (List Lexeme × RawExpr)} {es : List RawExpr}
    (hes : es.map Expr.bare = (parts.map Prod.snd).map Expr.bare)
    (hparts : ∀ p ∈ parts, ∀ e, e.bare = p.2.bare → Derives level p.1 e) :
    ∃ parts' : List (List Lexeme × RawExpr), parts'.map Prod.fst = parts.map Prod.fst ∧
      parts'.map Prod.snd = es ∧ ∀ p ∈ parts', Derives level p.1 p.2 := by
  induction parts generalizing es with
  | nil =>
    obtain rfl := List.map_eq_nil_iff.mp hes
    refine ⟨[], rfl, rfl, ?_⟩
    intro p hp
    cases hp
  | cons p parts ih =>
    obtain ⟨e, es, rfl, he, hes⟩ := List.map_eq_cons_iff.mp hes
    obtain ⟨parts', hfst, hsnd, hderives⟩ :=
      ih hes fun q hq => hparts q (List.mem_cons_of_mem p hq)
    refine ⟨(p.1, e) :: parts', congrArg (p.1 :: ·) hfst, congrArg (e :: ·) hsnd, ?_⟩
    intro q hq
    rcases List.mem_cons.mp hq with rfl | hq
    · exact hparts p List.mem_cons_self e he
    · exact hderives q hq

/-- Lexemes make up a tree whatever its tokens and notes are. -/
theorem of_bare (h : Derives level ls e) {e' : RawExpr} (he : e'.bare = e.bare) :
    Derives level ls e' := by
  induction h generalizing e' with
  | tighter hlevel _ ih => exact .tighter hlevel (ih he)
  | sequence hlength _ ih =>
    obtain ⟨tag', ss, rfl, hss⟩ := Expr.eq_sequence_of_bare (he.trans (Expr.bare_sequence _ _))
    obtain ⟨parts', hfst, rfl, hderives⟩ := replace_parts hss fun p hp e h => ih p hp h
    rw [← hfst]
    refine .sequence ?_ hderives
    have := congrArg List.length hfst
    simp only [List.length_map] at this
    omega
  | assignment _ _ ihx ihv =>
    obtain ⟨tag', x, v, rfl, hx, hv⟩ := Expr.eq_assignment_of_bare he
    exact .assignment (ihx hx) (ihv hv)
  | conditional _ _ _ ihc ihx ihy =>
    obtain ⟨tag', c, x, y, rfl, hc, hx, hy⟩ := Expr.eq_conditional_of_bare he
    exact .conditional (ihc hc) (ihx hx) (ihy hy)
  | chain hpower hconcat _ _ ihl ihr =>
    obtain ⟨tag', l, r, rfl, hl, hr⟩ := Expr.eq_binary_of_bare he
    exact .chain hpower hconcat (ihl hl) (ihr hr)
  | power _ _ ihl ihr =>
    obtain ⟨tag', l, r, rfl, hl, hr⟩ := Expr.eq_binary_of_bare he
    exact .power (ihl hl) (ihr hr)
  | sign hop _ ih =>
    obtain ⟨tag', x, rfl, hx⟩ := Expr.eq_unary_of_bare he
    exact .sign hop (ih hx)
  | element _ _ iha ihi =>
    obtain ⟨tag', a, i, rfl, ha, hi⟩ := Expr.eq_element_of_bare he
    exact .element (iha ha) (ihi hi)
  | group _ ih =>
    obtain ⟨tag', x, rfl, hx⟩ := Expr.eq_unary_of_bare he
    exact .group (ih hx)
  | call hname _ ih =>
    obtain ⟨tag', as, rfl, has⟩ := Expr.eq_call_of_bare (he.trans (Expr.bare_call _ _ _))
    obtain ⟨parts', hfst, rfl, hderives⟩ := replace_parts has fun p hp e h => ih p hp h
    rw [← hfst]
    exact .call hname hderives
  | integer hn =>
    obtain ⟨tag', rfl⟩ := Expr.eq_literal_of_bare he
    exact .integer hn
  | decimal hd =>
    obtain ⟨tag', rfl⟩ := Expr.eq_literal_of_bare he
    exact .decimal hd
  | string =>
    obtain ⟨tag', rfl⟩ := Expr.eq_literal_of_bare he
    exact .string
  | boolean =>
    obtain ⟨tag', rfl⟩ := Expr.eq_literal_of_bare he
    exact .boolean
  | null =>
    obtain ⟨tag', rfl⟩ := Expr.eq_literal_of_bare he
    exact .null
  | var hname =>
    obtain ⟨tag', rfl⟩ := Expr.eq_var_of_bare he
    exact .var hname

end Derives

end ComputedField
