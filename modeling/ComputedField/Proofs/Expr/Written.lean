import ComputedField.Proofs.Decimal.Notation
import ComputedField.Proofs.Expr.Grammar

/-!
# What a written expression says

The words of an expression make up another one in the grammar, `Expr.written`: it has parentheses
where the line has them, a sign before the absolute value of a negative number, and the call that
makes the date in the place of a date. Every name has to be one for that (`Formula`). The line is
legible, so that it is scanned word for word.
-/

set_option autoImplicit false

namespace ComputedField

/-! ## Literals -/

/-- A number with its sign. -/
def RawExpr.signed (negative : Bool) (magnitude : Literal) : RawExpr :=
  if negative then .unary default .negative (.literal default magnitude)
  else .literal default magnitude

/-- An integer with its sign. -/
def RawExpr.signedInteger (n : Int) : RawExpr := signed (decide (n < 0)) (.integer n.natAbs)

/-- The call that makes a date. -/
def RawExpr.dateCall (d : Date) : RawExpr :=
  .call default "date" [signedInteger d.year, signedInteger d.month, signedInteger d.day]

/-- What the words of a literal say. -/
def Literal.written : Literal → RawExpr
  | integer n => RawExpr.signedInteger n
  | decimal d =>
    RawExpr.signed d.isNegative (.decimal (Decimal.ofPlain d.unscaled.natAbs d.scale))
  | date d => RawExpr.dateCall d
  | v => .literal default v

/-- The operator that the mark of `op` says before types are known. -/
def BinaryOp.spoken : BinaryOp → BinaryOp
  | concat => add
  | op => op

theorem BinaryOp.mark_spoken (op : BinaryOp) : op.spoken.mark = op.mark := by
  cases op <;> rfl

theorem BinaryOp.precedence_spoken (op : BinaryOp) : op.spoken.precedence = op.precedence := by
  cases op <;> rfl

theorem BinaryOp.spoken_ne_concat (op : BinaryOp) : op.spoken ≠ concat := by
  cases op <;> intro h <;> cases h

theorem BinaryOp.spoken_eq_power {op : BinaryOp} : op.spoken = power ↔ op = power := by
  cases op with
  | concat => decide
  | arithmetic | relation | connective => rfl

theorem BinaryOp.spoken_of_ne {op : BinaryOp} (h : op ≠ concat) : op.spoken = op := by
  cases op with
  | concat => exact absurd rfl h
  | arithmetic | relation | connective => rfl

theorem BinaryOp.bounds_of_ne {op : BinaryOp} (h : op ≠ power) :
    op.leftBound = op.precedence ∧ op.rightBound = op.precedence + 1 := by
  have hassoc : op.isRightAssociative = false := by simpa [isRightAssociative]
  rw [leftBound, rightBound, hassoc]
  exact ⟨rfl, rfl⟩

theorem BinaryOp.bounds_le (op : BinaryOp) :
    op.leftBound ≤ Precedence.primary ∧ op.rightBound ≤ Precedence.primary := by
  by_cases h : op = power
  · subst h
    decide
  · obtain ⟨hleft, hright⟩ := bounds_of_ne h
    have hlt := op.precedence_lt_unary
    rw [hleft, hright]
    exact ⟨Nat.le_succ_of_le (Nat.le_of_lt hlt), Nat.le_succ_of_le hlt⟩

/-! ## Expressions -/

/-- `e`, inside parentheses if `needed`. -/
def RawExpr.enclosedIf (needed : Bool) (e : RawExpr) : RawExpr :=
  if needed then .unary default .group e else e

namespace Expr

variable {α : Type}

mutual

/-- What the words of an expression say where nothing looser than `bound` may stand alone. -/
def written (bound : Nat) (e : Expr α) : RawExpr :=
  RawExpr.enclosedIf (e.precedence < bound) <|
    match e with
    | literal _ v => v.written
    | var _ x => .var default x
    | unary _ op x =>
      .unary default op (x.written (if op = .group then Precedence.conditional else
        Precedence.primary))
    | binary _ op l r =>
      .binary default op.spoken (l.written op.leftBound) (r.written op.rightBound)
    | assignment _ x v =>
      .assignment default (x.written Precedence.conditional) (v.written Precedence.assignment)
    | conditional _ c x y =>
      .conditional default (c.written Precedence.boolean) (x.written Precedence.conditional)
        (y.written Precedence.conditional)
    | element _ a i =>
      .element default (a.written Precedence.primary) (i.written Precedence.conditional)
    | call _ f as => .call default f (writtenAll Precedence.conditional as)
    | sequence _ ss => .sequence default (writtenAll Precedence.assignment ss)
termination_by structural e

def writtenAll (bound : Nat) (es : List (Expr α)) : List RawExpr :=
  match es with
  | [] => []
  | e :: es => e.written bound :: writtenAll bound es
termination_by structural es

end

theorem writtenAll_eq_map (bound : Nat) (es : List (Expr α)) :
    writtenAll bound es = es.map (written bound) := by
  induction es with
  | nil => rfl
  | cons e es ih =>
    rw [List.map_cons, ← ih]
    rfl

/-- Whatever stands where it binds tightly enough is written like alone. -/
theorem wordsAt_eq (e : Expr α) (bound : Nat) :
    e.wordsAt bound = Word.enclosedIf (e.precedence < bound) e.words := by
  unfold words
  cases e <;> rfl

theorem written_eq (e : Expr α) (bound : Nat) :
    e.written bound =
      RawExpr.enclosedIf (e.precedence < bound) (e.written Precedence.sequence) := by
  cases e <;> rfl

theorem wordsAt_of_le {e : Expr α} {bound : Nat} (h : bound ≤ e.precedence) :
    e.wordsAt bound = e.words := by
  rw [wordsAt_eq, Word.enclosedIf, if_neg]
  simpa using h

theorem written_of_le {e : Expr α} {bound : Nat} (h : bound ≤ e.precedence) :
    e.written bound = e.written Precedence.sequence := by
  rw [written_eq, RawExpr.enclosedIf, if_neg]
  simpa using h

/-! ## The words of each node -/

section Words

variable {tag : Tag α} {x v l r c y a i : Expr α} {f : String} {es : List (Expr α)}

theorem words_group : (unary tag .group x).words =
    .mark .leftParen :: x.wordsAt Precedence.conditional ++ [.mark .rightParen] := rfl

theorem words_sign {op : UnaryOp} {m : Mark} (hop : op.mark? = some m) :
    (unary tag op x).words = .mark m :: x.wordsAt Precedence.primary := by
  cases op <;> cases hop <;> rfl

theorem words_binary {op : BinaryOp} : (binary tag op l r).words =
    l.wordsAt op.leftBound ++ [.blank, .mark op.mark, .blank] ++ r.wordsAt op.rightBound := rfl

theorem words_assignment : (assignment tag x v).words =
    x.wordsAt Precedence.conditional ++ [.blank, .mark .assign, .blank] ++
      v.wordsAt Precedence.assignment := rfl

theorem words_conditional : (conditional tag c x y).words =
    c.wordsAt Precedence.boolean ++ [.blank, .mark .question, .blank] ++
      x.wordsAt Precedence.conditional ++ [.blank, .mark .colon, .blank] ++
      y.wordsAt Precedence.conditional := rfl

theorem words_element : (element tag a i).words =
    a.wordsAt Precedence.primary ++ [.mark .leftBracket] ++ i.wordsAt Precedence.conditional ++
      [.mark .rightBracket] := rfl

theorem words_call : (call tag f es).words =
    [.name f, .mark .leftParen] ++ separated [.mark .comma, .blank] Precedence.conditional es ++
      [.mark .rightParen] := rfl

theorem words_sequence : (sequence tag es).words =
    separated [.mark .semicolon, .blank] Precedence.assignment es := rfl

open Word (lexemes)

theorem lexemes_group : lexemes (unary tag .group x).words =
    .mark .leftParen :: (lexemes (x.wordsAt Precedence.conditional) ++ [.mark .rightParen]) := by
  simp [words_group, lexemes]

theorem lexemes_sign {op : UnaryOp} {m : Mark} (hop : op.mark? = some m) :
    lexemes (unary tag op x).words = .mark m :: lexemes (x.wordsAt Precedence.primary) := by
  rw [words_sign hop, lexemes]

theorem lexemes_binary {op : BinaryOp} : lexemes (binary tag op l r).words =
    lexemes (l.wordsAt op.leftBound) ++ .mark op.mark :: lexemes (r.wordsAt op.rightBound) := by
  simp [words_binary, lexemes]

theorem lexemes_assignment : lexemes (assignment tag x v).words =
    lexemes (x.wordsAt Precedence.conditional) ++
      .mark .assign :: lexemes (v.wordsAt Precedence.assignment) := by
  simp [words_assignment, lexemes]

theorem lexemes_conditional : lexemes (conditional tag c x y).words =
    lexemes (c.wordsAt Precedence.boolean) ++
      .mark .question :: (lexemes (x.wordsAt Precedence.conditional) ++
        .mark .colon :: lexemes (y.wordsAt Precedence.conditional)) := by
  simp [words_conditional, lexemes]

theorem lexemes_element : lexemes (element tag a i).words =
    lexemes (a.wordsAt Precedence.primary) ++
      .mark .leftBracket :: (lexemes (i.wordsAt Precedence.conditional) ++
        [.mark .rightBracket]) := by
  simp [words_element, lexemes]

theorem lexemes_separated (separator : List Word) (bound : Nat) (es : List (Expr α)) :
    lexemes (separated separator bound es) =
      (lexemes separator).intercalate (es.map fun e => lexemes (e.wordsAt bound)) := by
  induction es with
  | nil => rfl
  | cons e es ih =>
    cases es with
    | nil => rw [List.map_singleton, List.intercalate_singleton, separated]
    | cons e' es =>
      rw [List.map_cons] at ih
      rw [List.map_cons, List.map_cons, List.intercalate_cons_cons, ← ih, ← Word.lexemes_append,
        ← Word.lexemes_append]
      rfl

theorem lexemes_call : lexemes (call tag f es).words =
    .identifier f :: .mark .leftParen ::
      ([.mark .comma].intercalate (es.map fun e => lexemes (e.wordsAt Precedence.conditional)) ++
        [.mark .rightParen]) := by
  simp [words_call, lexemes_separated, lexemes]

theorem lexemes_sequence : lexemes (sequence tag es).words =
    [.mark .semicolon].intercalate (es.map fun e => lexemes (e.wordsAt Precedence.assignment)) := by
  rw [words_sequence, lexemes_separated]
  rfl

end Words

/-! ## Formulas -/

mutual

/-- The names of the variables and functions in the tree. -/
def names : Expr α → List String
  | literal .. => []
  | var _ x => [x]
  | unary _ _ x => x.names
  | binary _ _ l r => l.names ++ r.names
  | assignment _ x v => x.names ++ v.names
  | conditional _ c x y => c.names ++ (x.names ++ y.names)
  | element _ a i => a.names ++ i.names
  | call _ f as => f :: namesAll as
  | sequence _ ss => namesAll ss

def namesAll : List (Expr α) → List String
  | [] => []
  | e :: es => e.names ++ namesAll es

end

theorem namesAll_eq_flatMap (es : List (Expr α)) : namesAll es = es.flatMap names := by
  induction es with
  | nil => rfl
  | cons e es ih =>
    rw [List.flatMap_cons, ← ih]
    rfl

/-- Variables and functions have names that are no literals. -/
def Named (e : Expr α) : Prop := ∀ x ∈ e.names, isName x = true ∧ x ∉ keywords

section Named

variable {tag : Tag α} {x v l r c y a i : Expr α} {f : String} {es : List (Expr α)}

theorem named_var : (var tag f).Named ↔ isName f = true ∧ f ∉ keywords :=
  List.forall_mem_singleton

theorem named_unary {op : UnaryOp} : (unary tag op x).Named ↔ x.Named := Iff.rfl

theorem named_binary {op : BinaryOp} : (binary tag op l r).Named ↔ l.Named ∧ r.Named :=
  List.forall_mem_append

theorem named_assignment : (assignment tag x v).Named ↔ x.Named ∧ v.Named :=
  List.forall_mem_append

theorem named_conditional : (conditional tag c x y).Named ↔ c.Named ∧ x.Named ∧ y.Named :=
  List.forall_mem_append.trans (and_congr_right' List.forall_mem_append)

theorem named_element : (element tag a i).Named ↔ a.Named ∧ i.Named :=
  List.forall_mem_append

theorem named_sequence : (sequence tag es).Named ↔ ∀ e ∈ es, e.Named := by
  change (∀ x ∈ namesAll es, _) ↔ _
  rw [namesAll_eq_flatMap, List.forall_mem_flatMap]
  rfl

theorem named_call :
    (call tag f es).Named ↔ (isName f = true ∧ f ∉ keywords) ∧ ∀ e ∈ es, e.Named :=
  List.forall_mem_cons.trans (and_congr_right' (@named_sequence α tag es))

end Named

/-- A program that can be written: its names are names, and a sequence in it has several
statements. -/
structure Formula (e : Expr α) : Prop where
  program : e.Program
  named : e.Named
  several : ∀ {tag ss}, e = .sequence tag ss → 2 ≤ ss.length

/-! ## The words make up what they say -/

theorem precedence_le (e : Expr α) : e.precedence ≤ Precedence.primary := by
  cases e with
  | literal tag v =>
    rw [precedence]
    split <;> decide
  | unary tag op x => cases op <;> exact of_decide_eq_true rfl
  | binary tag op l r => exact Nat.le_succ_of_le (Nat.le_of_lt op.precedence_lt_unary)
  | _ => exact of_decide_eq_true rfl

theorem Plain.conditional_le_precedence {e : Expr α} (h : e.Plain) :
    Precedence.conditional ≤ e.precedence := by
  cases h with
  | literal tag v =>
    rw [precedence]
    split <;> decide
  | @unary tag op x _ => cases op <;> exact of_decide_eq_true rfl
  | @binary tag op l r _ _ => exact Nat.le_of_lt op.conditional_lt_precedence
  | _ => exact of_decide_eq_true rfl

theorem Statement.assignment_le_precedence {e : Expr α} (h : e.Statement) :
    Precedence.assignment ≤ e.precedence := by
  cases h with
  | plain h => exact Nat.le_of_succ_le h.conditional_le_precedence
  | assignment => exact Nat.le_refl _

/-- What binds tightly enough stands alone, and all else in parentheses. -/
theorem derives_wordsAt {e : Expr α} {bound : Nat} (hlow : Precedence.conditional ≤ e.precedence)
    (h : Derives e.precedence (Word.lexemes e.words) (e.written Precedence.sequence))
    (hbound : bound ≤ Precedence.primary) :
    Derives bound (Word.lexemes (e.wordsAt bound)) (e.written bound) := by
  rw [wordsAt_eq, written_eq]
  by_cases hlt : e.precedence < bound
  · simp only [hlt, decide_true, Word.enclosedIf, RawExpr.enclosedIf, if_true]
    refine Derives.loosen ?_ hbound (Nat.le_refl _)
    have hgroup : Derives Precedence.primary _
        (.unary default .group (e.written Precedence.sequence)) :=
      .group (h.loosen hlow e.precedence_le)
    simpa [Word.lexemes] using hgroup
  · simp only [hlt, decide_false, Word.enclosedIf, RawExpr.enclosedIf]
    exact h.loosen (Nat.le_of_not_lt hlt) e.precedence_le

theorem derives_signed {negative : Bool} {ls : List Lexeme} {v : Literal}
    (h : Derives Precedence.primary ls (.literal default v)) :
    Derives (if negative then Precedence.unary else Precedence.primary)
      ((if negative then [.mark .minus] else []) ++ ls) (RawExpr.signed negative v) := by
  cases negative with
  | false => exact h
  | true =>
    change Derives Precedence.unary (.mark .minus :: ls) (.unary default .negative _)
    exact .sign rfl h

theorem digitsValue?_integerText (n : Nat) : digitsValue? (integerText n).toList = some n := by
  rw [integerText, if_neg (by omega)]
  simpa using digitsValue?_digitChars n

theorem lexemes_signedInteger (n : Int) :
    Word.lexemes (Word.signedInteger n) =
      (if decide (n < 0) then [.mark .minus] else []) ++ [.integer (integerText n.natAbs)] := by
  unfold Word.signedInteger
  by_cases h : n < 0 <;> simp [h, Word.lexemes]

theorem lexemes_signedDecimal (d : Decimal) :
    Word.lexemes (Word.signedDecimal d) = (if d.isNegative then [.mark .minus] else []) ++
      [.decimal (String.ofList (Decimal.plainDigits d.unscaled.natAbs d.scale))] := by
  unfold Word.signedDecimal
  cases d.isNegative <;> rfl

theorem derives_signedInteger (n : Int) :
    Derives (if decide (n < 0) then Precedence.unary else Precedence.primary)
      (Word.lexemes (Word.signedInteger n)) (RawExpr.signedInteger n) := by
  rw [lexemes_signedInteger]
  exact derives_signed (.integer (digitsValue?_integerText n.natAbs))

/-- The parts of a date may be negative; as arguments they stand alone. -/
theorem derives_dateCall (d : Date) :
    Derives Precedence.primary (Word.lexemes (Literal.date d).words) (RawExpr.dateCall d) := by
  have hpart (n : Int) :
      Derives Precedence.conditional (Word.lexemes (Word.signedInteger n))
        (RawExpr.signedInteger n) := by
    refine (derives_signedInteger n).loosen ?_ ?_ <;> split <;> decide
  have hname : "date" ∉ keywords := by decide
  have hcall := Derives.call_map hname
    fun n (_ : n ∈ [d.year, (d.month : Int), (d.day : Int)]) => hpart n
  simpa [RawExpr.dateCall, Literal.words, Word.lexemes, List.intercalate_cons_cons] using hcall

theorem derives_literal (tag : Tag α) (v : Literal) :
    Derives (literal tag v).precedence (Word.lexemes v.words) v.written := by
  cases v with
  | integer n => exact derives_signedInteger n
  | decimal d =>
    have hdigits : Derives Precedence.primary
        [.decimal (String.ofList (Decimal.plainDigits d.unscaled.natAbs d.scale))]
        (.literal default (.decimal (Decimal.ofPlain d.unscaled.natAbs d.scale))) := by
      refine .decimal ?_
      rw [String.toList_ofList]
      exact Decimal.ofDigits?_plainDigits _ _
    rw [Literal.words, lexemes_signedDecimal]
    exact derives_signed hdigits
  | date d => exact derives_dateCall d
  | boolean b => exact .boolean
  | string s => exact .string
  | null => exact .null

/-- The lexemes of a plain expression make up what its words say. -/
theorem Plain.derives {e : Expr α} (h : e.Plain) (hnames : e.Named) {bound : Nat}
    (hbound : bound ≤ Precedence.primary) :
    Derives bound (Word.lexemes (e.wordsAt bound)) (e.written bound) := by
  induction h generalizing bound with
  | literal tag v =>
    exact derives_wordsAt (Plain.literal tag v).conditional_le_precedence (derives_literal tag v)
      hbound
  | var tag name =>
    exact derives_wordsAt (of_decide_eq_true rfl) (.var (named_var.mp hnames).2) hbound
  | @unary tag op x hx ih =>
    refine derives_wordsAt (Plain.unary hx).conditional_le_precedence ?_ hbound
    cases op with
    | group =>
      rw [lexemes_group]
      exact .group (ih hnames (by decide))
    | positive | negative | not =>
      rw [lexemes_sign rfl]
      exact .sign rfl (ih hnames (Nat.le_refl _))
  | @binary tag op l r hl hr ihl ihr =>
    obtain ⟨hnamesl, hnamesr⟩ := named_binary.mp hnames
    refine derives_wordsAt (Plain.binary hl hr).conditional_le_precedence ?_ hbound
    rw [lexemes_binary]
    change Derives op.precedence _
      (.binary default op.spoken (l.written op.leftBound) (r.written op.rightBound))
    -- a power groups to the right, and its base is no power
    by_cases hpower : op = .power
    · subst hpower
      exact .power (ihl hnamesl (by decide)) (ihr hnamesr (by decide))
    · obtain ⟨hleft, hright⟩ := BinaryOp.bounds_of_ne hpower
      have hle := op.precedence_lt_unary
      rw [hleft, hright, ← op.precedence_spoken, ← op.mark_spoken]
      rw [← op.precedence_spoken] at hle
      exact .chain (fun h => hpower (BinaryOp.spoken_eq_power.mp h)) op.spoken_ne_concat
        (ihl hnamesl (Nat.le_succ_of_le (Nat.le_of_lt hle))) (ihr hnamesr (Nat.le_succ_of_le hle))
  | @conditional tag c x y hc hx hy ihc ihx ihy =>
    obtain ⟨hnamesc, hnamesx, hnamesy⟩ := named_conditional.mp hnames
    refine derives_wordsAt (Nat.le_refl _) ?_ hbound
    rw [lexemes_conditional]
    exact .conditional (ihc hnamesc (by decide)) (ihx hnamesx (by decide)) (ihy hnamesy (by decide))
  | @element tag a i ha hi iha ihi =>
    obtain ⟨hnamesa, hnamesi⟩ := named_element.mp hnames
    refine derives_wordsAt (of_decide_eq_true rfl) ?_ hbound
    rw [lexemes_element]
    exact .element (iha hnamesa (by decide)) (ihi hnamesi (by decide))
  | @call tag f as has ih =>
    obtain ⟨⟨-, hf⟩, hnamesas⟩ := named_call.mp hnames
    refine derives_wordsAt (of_decide_eq_true rfl) ?_ hbound
    have hcall := Derives.call_map hf fun a ha =>
      ih a ha (hnamesas a ha) (show Precedence.conditional ≤ Precedence.primary by decide)
    rw [lexemes_call]
    change Derives Precedence.primary _ (.call default f (writtenAll Precedence.conditional as))
    rwa [writtenAll_eq_map]

/-- The lexemes of a statement make up what its words say. -/
theorem Statement.derives {e : Expr α} (h : e.Statement) (hnames : e.Named) :
    Derives Precedence.assignment (Word.lexemes (e.wordsAt Precedence.assignment))
      (e.written Precedence.assignment) := by
  induction h with
  | plain h => exact h.derives hnames (by decide)
  | @assignment tag x v hx hv ih =>
    obtain ⟨hnamesx, hnamesv⟩ := named_assignment.mp hnames
    rw [wordsAt_of_le (Nat.le_refl Precedence.assignment), lexemes_assignment]
    exact .assignment (hx.derives hnamesx (by decide)) (ih hnamesv)

/-- **The lexemes of a formula make up what its words say.** -/
theorem Formula.derives {e : Expr α} (h : e.Formula) :
    Derives Precedence.sequence (Word.lexemes e.words) (e.written Precedence.sequence) := by
  obtain ⟨hprogram, hnames, hseveral⟩ := h
  cases hprogram with
  | statement h =>
    have hle := h.assignment_le_precedence
    have hderives := h.derives hnames
    rw [wordsAt_of_le hle, written_of_le hle] at hderives
    exact .tighter (by decide) hderives
  | @sequence tag ss hss =>
    have hnames := named_sequence.mp hnames
    have hsequence := Derives.sequence_map (hseveral rfl) fun s hs =>
      (hss s hs).derives (hnames s hs)
    rw [lexemes_sequence]
    change Derives Precedence.sequence _ (.sequence default (writtenAll Precedence.assignment ss))
    rwa [writtenAll_eq_map]

end Expr

end ComputedField
