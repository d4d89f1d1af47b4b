import ComputedField.Proofs.Expr.Written

/-!
# Written expressions are legible

No two words of a written expression run into one another (`legible_wordsAt`), so that its text is
scanned word for word (`tokenize_text`).
-/

set_option autoImplicit false

namespace ComputedField

/-- The text behind an expression ends its names and numbers. -/
def closes (next : List Char) : Bool :=
  !next.head?.any isNamePart && !next.head?.any isNumberPart

/-- What an expression begins with is spelled without an equals sign in front. -/
theorem Lexeme.head_spelling {l : Lexeme} (hl : l.wellFormed = true) (hopens : l.opens = true) :
    ∃ c cs, l.spelling = c :: cs ∧ c ≠ '=' := by
  cases l with
  | endOfInput => cases hl
  | identifier s =>
    simp only [wellFormed, isName] at hl
    split at hl
    · cases hl
    · next c cs hspell =>
      refine ⟨c, cs, hspell, ?_⟩
      rintro rfl
      simp [isNameStart] at hl
  | integer s | decimal s =>
    simp only [wellFormed, isNumber] at hl
    split at hl
    · cases hl
    · next c cs hspell =>
      refine ⟨c, cs, hspell, ?_⟩
      rintro rfl
      simp at hl
  | string s => exact ⟨_, _, rfl, by decide⟩
  | mark m => cases m <;> cases hopens <;> exact ⟨_, _, rfl, by decide⟩

namespace Word

variable {next : List Char}

/-- A blank ends whatever it stands behind. -/
theorem endsBefore_blank (m : Mark) (next : List Char) :
    (Lexeme.mark m).endsBefore (' ' :: next) = true := by
  cases m <;> rfl

theorem legible_enclosedIf {needed : Bool} {ws : List Word}
    (h : ∀ next, closes next = true → Legible ws next) (hnext : closes next = true) :
    Legible (enclosedIf needed ws) next := by
  cases needed with
  | false => exact h next hnext
  | true => exact legible_append.mpr ⟨⟨rfl, rfl, h _ rfl⟩, rfl, rfl, trivial⟩

theorem legible_name {s : String} (hs : isName s = true) (hnext : closes next = true) :
    Legible [.name s] next :=
  ⟨hs, ((Bool.and_eq_true _ _).mp hnext).1, trivial⟩

theorem isNumber_integerText (n : Nat) : isNumber 0 (integerText n) = true := by
  have hdigits : ∀ c ∈ digitChars n, c.isDigit = true := fun c => isDigit_of_mem_digitChars
  have hcount : (digitChars n).count '.' = 0 :=
    List.count_eq_zero.mpr fun h => absurd (hdigits '.' h) (by decide)
  obtain ⟨c, cs, hcs⟩ := List.exists_cons_of_ne_nil (digitChars_ne_nil n)
  have hparts : cs.all isNumberPart = true := by
    rw [List.all_eq_true]
    intro d hd
    rw [isNumberPart, hdigits d (by simp [hcs, hd])]
    rfl
  rw [hcs] at hcount
  rw [isNumber, integerText, if_neg (by omega)]
  simp [hcs, hdigits c (by simp [hcs]), hparts, hcount]

theorem legible_signedInteger (n : Int) (hnext : closes next = true) :
    Legible (signedInteger n) next := by
  have hdigits : Legible [.lexeme (.integer (integerText n.natAbs))] next :=
    ⟨isNumber_integerText n.natAbs, ((Bool.and_eq_true _ _).mp hnext).2, trivial⟩
  unfold signedInteger
  split
  · exact ⟨rfl, rfl, hdigits⟩
  · exact hdigits

theorem legible_signedDecimal (d : Decimal) (hnext : closes next = true) :
    Legible (signedDecimal d) next := by
  have hdigits : Legible
      [.lexeme (.decimal (String.ofList (Decimal.plainDigits d.unscaled.natAbs d.scale)))] next :=
    ⟨Decimal.isNumber_plainDigits _ _, ((Bool.and_eq_true _ _).mp hnext).2, trivial⟩
  unfold signedDecimal
  split
  · exact ⟨rfl, rfl, hdigits⟩
  · exact hdigits

theorem legible_literal (v : Literal) (hnext : closes next = true) : Legible v.words next := by
  cases v with
  | boolean b => exact legible_name (by cases b <;> rfl) hnext
  | integer n => exact legible_signedInteger n hnext
  | decimal d => exact legible_signedDecimal d hnext
  | string s => exact ⟨rfl, rfl, trivial⟩
  | date d =>
    simp only [Literal.words, legible_append]
    exact ⟨⟨⟨⟨⟨⟨⟨rfl, rfl, rfl, rfl, trivial⟩, legible_signedInteger _ rfl⟩, rfl, rfl, trivial⟩,
      legible_signedInteger _ rfl⟩, rfl, rfl, trivial⟩, legible_signedInteger _ rfl⟩, rfl, rfl,
      trivial⟩
  | null => exact legible_name rfl hnext

theorem first_literal (v : Literal) :
    ∃ l ws, v.words = .lexeme l :: ws ∧ l.wellFormed = true ∧ l.opens = true := by
  cases v with
  | boolean b => exact ⟨_, _, rfl, by cases b <;> rfl, rfl⟩
  | integer n =>
    by_cases hn : n < 0
    · simp only [Literal.words, signedInteger, if_pos hn]
      exact ⟨_, _, rfl, rfl, rfl⟩
    · simp only [Literal.words, signedInteger, if_neg hn]
      exact ⟨_, _, rfl, isNumber_integerText _, rfl⟩
  | decimal d =>
    cases hd : d.isNegative with
    | true =>
      simp only [Literal.words, signedDecimal, hd, if_true]
      exact ⟨_, _, rfl, rfl, rfl⟩
    | false =>
      simp only [Literal.words, signedDecimal, hd]
      exact ⟨_, _, rfl, Decimal.isNumber_plainDigits _ _, rfl⟩
  | string | date | null => exact ⟨_, _, rfl, rfl, rfl⟩

end Word

namespace Expr

variable {α : Type}

/-- The first word of an operand. -/
theorem first_wordsAt {e : Expr α} (hnames : e.Named) :
    ∃ l ws, e.wordsAt Precedence.primary = .lexeme l :: ws ∧ l.wellFormed = true ∧
      l.opens = true := by
  induction e using Expr.induct with
  | literal tag v =>
    obtain ⟨l, ws, hv, hl⟩ := Word.first_literal v
    rw [wordsAt_eq]
    unfold Word.enclosedIf
    split
    · exact ⟨_, _, rfl, rfl, rfl⟩
    · exact ⟨l, ws, hv, hl⟩
  | var tag x => exact ⟨_, _, rfl, (named_var.mp hnames).1, rfl⟩
  | unary tag op x ih => cases op <;> exact ⟨_, _, rfl, rfl, rfl⟩
  | binary tag op l r ihl ihr =>
    have hlt : (binary tag op l r).precedence < Precedence.primary :=
      Nat.lt_succ_of_lt op.precedence_lt_unary
    rw [wordsAt_eq, decide_eq_true hlt]
    exact ⟨_, _, rfl, rfl, rfl⟩
  | assignment | conditional | sequence => exact ⟨_, _, rfl, rfl, rfl⟩
  | element tag a i iha ihi =>
    obtain ⟨l, ws, ha, hl⟩ := iha (named_element.mp hnames).1
    refine ⟨l, ws ++ ([.mark .leftBracket] ++ i.wordsAt Precedence.conditional ++
      [.mark .rightBracket]), ?_, hl⟩
    rw [wordsAt_of_le (Nat.le_refl Precedence.primary), words_element, ha]
    simp
  | call tag f as ih => exact ⟨_, _, rfl, (named_call.mp hnames).1.1, rfl⟩

/-- No operand begins with an equals sign, which would make another mark of the one before it. -/
theorem endsBefore_wordsAt {e : Expr α} (hnames : e.Named) {op : UnaryOp} {m : Mark}
    (hop : op.mark? = some m) (next : List Char) :
    (Lexeme.mark m).endsBefore ((e.wordsAt Precedence.primary).flatMap Word.spelling ++ next) =
      true := by
  obtain ⟨l, ws, he, hl, hopens⟩ := first_wordsAt hnames
  obtain ⟨c, cs, hspell, hc⟩ := Lexeme.head_spelling hl hopens
  rw [he, List.flatMap_cons, Word.spelling, hspell]
  cases op <;> cases hop
  · rfl
  · rfl
  · simpa [Lexeme.endsBefore] using hc

theorem legible_separated {m : Mark} {bound : Nat} {es : List (Expr α)} {next : List Char}
    (hm : ∀ next, closes (m.spelling.toList ++ next) = true)
    (h : ∀ e ∈ es, ∀ next, closes next = true → Word.Legible (e.wordsAt bound) next)
    (hnext : closes next = true) : Word.Legible (separated [.mark m, .blank] bound es) next := by
  induction es with
  | nil => trivial
  | cons e es ih =>
    have he := h e List.mem_cons_self
    have hes := ih fun e' he' => h e' (List.mem_cons_of_mem e he')
    cases es with
    | nil => exact he next hnext
    | cons e' es =>
      change Word.Legible (e.wordsAt bound ++ [.mark m, .blank] ++
        separated [.mark m, .blank] bound (e' :: es)) next
      rw [Word.legible_append, Word.legible_append]
      refine ⟨⟨he _ ?_, rfl, Word.endsBefore_blank _ _, trivial⟩, hes⟩
      rw [List.flatMap_cons, List.append_assoc]
      exact hm _

/-- **The words of an expression do not run into one another.** -/
theorem legible_wordsAt {e : Expr α} (hnames : e.Named) (bound : Nat) {next : List Char}
    (hnext : closes next = true) : Word.Legible (e.wordsAt bound) next := by
  induction e using Expr.induct generalizing bound next with
  | literal tag v =>
    rw [wordsAt_eq]
    exact Word.legible_enclosedIf (fun next => Word.legible_literal v) hnext
  | var tag x =>
    rw [wordsAt_eq]
    exact Word.legible_enclosedIf (fun next => Word.legible_name (named_var.mp hnames).1) hnext
  | unary tag op x ih =>
    have hnames := named_unary.mp hnames
    rw [wordsAt_eq]
    refine Word.legible_enclosedIf (fun next hnext => ?_) hnext
    cases hop : op.mark? with
    | some m =>
      rw [words_sign hop]
      exact ⟨rfl, endsBefore_wordsAt hnames hop _, ih hnames _ hnext⟩
    | none =>
      obtain rfl : op = .group := by
        cases op <;> cases hop
        rfl
      rw [words_group]
      exact Word.legible_append.mpr ⟨⟨rfl, rfl, ih hnames _ rfl⟩, rfl, rfl, trivial⟩
  | binary tag op l r ihl ihr =>
    obtain ⟨hnamesl, hnamesr⟩ := named_binary.mp hnames
    rw [wordsAt_eq]
    refine Word.legible_enclosedIf (fun next hnext => ?_) hnext
    rw [words_binary, Word.legible_append, Word.legible_append]
    exact ⟨⟨ihl hnamesl _ rfl, rfl, Word.endsBefore_blank _ _, trivial⟩, ihr hnamesr _ hnext⟩
  | assignment tag x v ihx ihv =>
    obtain ⟨hnamesx, hnamesv⟩ := named_assignment.mp hnames
    rw [wordsAt_eq]
    refine Word.legible_enclosedIf (fun next hnext => ?_) hnext
    rw [words_assignment, Word.legible_append, Word.legible_append]
    exact ⟨⟨ihx hnamesx _ rfl, rfl, rfl, trivial⟩, ihv hnamesv _ hnext⟩
  | conditional tag c x y ihc ihx ihy =>
    obtain ⟨hnamesc, hnamesx, hnamesy⟩ := named_conditional.mp hnames
    rw [wordsAt_eq]
    refine Word.legible_enclosedIf (fun next hnext => ?_) hnext
    rw [words_conditional, Word.legible_append, Word.legible_append, Word.legible_append,
      Word.legible_append]
    exact ⟨⟨⟨⟨ihc hnamesc _ rfl, rfl, rfl, trivial⟩, ihx hnamesx _ rfl⟩, rfl, rfl, trivial⟩,
      ihy hnamesy _ hnext⟩
  | element tag a i iha ihi =>
    obtain ⟨hnamesa, hnamesi⟩ := named_element.mp hnames
    rw [wordsAt_eq]
    refine Word.legible_enclosedIf (fun next hnext => ?_) hnext
    rw [words_element, Word.legible_append, Word.legible_append, Word.legible_append]
    exact ⟨⟨⟨iha hnamesa _ rfl, rfl, rfl, trivial⟩, ihi hnamesi _ rfl⟩, rfl, rfl, trivial⟩
  | call tag f as ih =>
    obtain ⟨⟨hf, -⟩, hnamesas⟩ := named_call.mp hnames
    rw [wordsAt_eq]
    refine Word.legible_enclosedIf (fun next hnext => ?_) hnext
    rw [words_call, Word.legible_append, Word.legible_append]
    refine ⟨⟨⟨hf, rfl, rfl, rfl, trivial⟩, ?_⟩, rfl, rfl, trivial⟩
    exact legible_separated (fun _ => rfl) (fun a ha next => ih a ha (hnamesas a ha) _) rfl
  | sequence tag ss ih =>
    have hnamesss := named_sequence.mp hnames
    rw [wordsAt_eq]
    refine Word.legible_enclosedIf (fun next hnext => ?_) hnext
    rw [words_sequence]
    exact legible_separated (fun _ => rfl) (fun s hs next => ih s hs (hnamesss s hs) _) hnext

/-- The text of an expression has the lexemes of its words. -/
theorem tokenize_text {e : Expr α} (hnames : e.Named) :
    ∃ tokens, tokenize e.text = .ok tokens ∧
      tokens.map Token.lexeme = Word.lexemes e.words :=
  tokenize_line (legible_wordsAt hnames _ rfl)

end Expr

end ComputedField
