import ComputedField.Proofs.Expr.Exact
import ComputedField.Proofs.Expr.Legible
import ComputedField.Proofs.Expr.Normal
import Mathlib

/-!
# Reading what was written

A tree that was read is written with the lexemes that it was read from, numbers aside, which may be
spelled anew (`ofText_text`). Every formula is written as a text that is read as the formula up to
what its text cannot say: the signs of its numbers, its parentheses, and the forms that have the
spelling of others (`Formula.ofText_text_normal`).
-/

set_option autoImplicit false

namespace ComputedField

/-! ## Trees that were read -/

/-- The same lexeme, or another spelling of the same number. -/
inductive Respells : Lexeme → Lexeme → Prop where
  | same (l : Lexeme) : Respells l l
  | integer {a b : String} {n : Nat} : digitsValue? a.toList = some n →
      digitsValue? b.toList = some n → Respells (.integer a) (.integer b)
  | decimal {a b : String} {d : Decimal} : Decimal.ofDigits? a.toList = some d →
      Decimal.ofDigits? b.toList = some d → Respells (.decimal a) (.decimal b)

theorem mem_intercalate {α : Type} {separator xs : List α} {xss : List (List α)} (hxs : xs ∈ xss) :
    ∀ x ∈ xs, x ∈ separator.intercalate xss := by
  intro x hx
  induction xss with
  | nil => cases hxs
  | cons ys xss ih =>
    cases xss with
    | nil =>
      rw [List.intercalate_singleton, ← List.mem_singleton.mp hxs]
      exact hx
    | cons zs xss =>
      rw [List.intercalate_cons_cons]
      rcases List.mem_cons.mp hxs with rfl | hxs
      · exact List.mem_append_left _ (List.mem_append_left _ hx)
      · exact List.mem_append_right _ (ih hxs)

theorem forall₂_intercalate {α : Type} {R : α → α → Prop} {separator : List α} {γ : Type}
    {f g : γ → List α} {cs : List γ} (hseparator : List.Forall₂ R separator separator)
    (h : ∀ c ∈ cs, List.Forall₂ R (f c) (g c)) :
    List.Forall₂ R (separator.intercalate (cs.map f)) (separator.intercalate (cs.map g)) := by
  induction cs with
  | nil => exact .nil
  | cons c cs ih =>
    have hc := h c List.mem_cons_self
    have hcs := ih fun c' hc' => h c' (List.mem_cons_of_mem c hc')
    cases cs with
    | nil => simpa using hc
    | cons c' cs =>
      simp only [List.map_cons, List.intercalate_cons_cons] at hcs ⊢
      exact List.rel_append (List.rel_append hc hseparator) hcs

namespace Derives

variable {level : Nat} {ls : List Lexeme} {e : RawExpr}

/-- Nothing is derived where it would need parentheses. -/
theorem le_precedence (h : Derives level ls e) : level ≤ e.precedence := by
  induction h with
  | tighter _ _ ih => exact Nat.le_of_succ_le ih
  | @sign tag op m ls x hop _ _ => cases op <;> cases hop <;> exact Nat.le_refl _
  | @integer tag digits n _ =>
    have : (Literal.integer n).isNegative = false := by simp [Literal.isNegative]
    rw [Expr.precedence, this]
    exact Nat.le_refl _
  | @decimal tag digits d hd =>
    have : (Literal.decimal d).isNegative = false := by
      simpa [Literal.isNegative, Decimal.isNegative] using (Decimal.ofDigits?_bounds hd).1
    rw [Expr.precedence, this]
    exact Nat.le_refl _
  | _ => exact Nat.le_refl _

/-- Names in a row of well-formed lexemes are names. -/
theorem named (h : Derives level ls e) (hls : ∀ l ∈ ls, l.wellFormed = true) : e.Named := by
  induction h with
  | tighter _ _ ih => exact ih hls
  | sequence _ _ ih =>
    refine Expr.named_sequence.mpr fun s hs => ?_
    obtain ⟨p, hp, rfl⟩ := List.mem_map.mp hs
    exact ih p hp fun l hl => hls l (mem_intercalate (List.mem_map_of_mem hp) l hl)
  | assignment _ _ ihx ihv =>
    simp only [List.forall_mem_append, List.forall_mem_cons] at hls
    exact Expr.named_assignment.mpr ⟨ihx hls.1, ihv hls.2.2⟩
  | conditional _ _ _ ihc ihx ihy =>
    simp only [List.forall_mem_append, List.forall_mem_cons] at hls
    exact Expr.named_conditional.mpr ⟨ihc hls.1, ihx hls.2.2.1, ihy hls.2.2.2.2⟩
  | chain _ _ _ _ ihl ihr | power _ _ ihl ihr =>
    simp only [List.forall_mem_append, List.forall_mem_cons] at hls
    exact Expr.named_binary.mpr ⟨ihl hls.1, ihr hls.2.2⟩
  | sign _ _ ih => exact ih (List.forall_mem_cons.mp hls).2
  | element _ _ iha ihi =>
    simp only [List.forall_mem_append, List.forall_mem_cons] at hls
    exact Expr.named_element.mpr ⟨iha hls.1, ihi hls.2.2.1⟩
  | integer | decimal | string | boolean | null =>
    intro x hx
    cases hx
  | group _ ih =>
    simp only [List.forall_mem_append, List.forall_mem_cons] at hls
    exact ih hls.2.1
  | var hname => exact Expr.named_var.mpr ⟨hls _ List.mem_cons_self, hname⟩
  | call hname _ ih =>
    simp only [List.forall_mem_append, List.forall_mem_cons] at hls
    refine Expr.named_call.mpr ⟨⟨hls.1, hname⟩, fun a ha => ?_⟩
    obtain ⟨p, hp, rfl⟩ := List.mem_map.mp ha
    exact ih p hp fun l hl => hls.2.2.1 l (mem_intercalate (List.mem_map_of_mem hp) l hl)

theorem written_parts {parts : List (List Lexeme × RawExpr)}
    (h : ∀ p ∈ parts, p.2.written level = p.2.bare) :
    Expr.writtenAll level (parts.map Prod.snd) = (parts.map Prod.snd).map Expr.bare := by
  rw [Expr.writtenAll_eq_map, List.map_map, List.map_map]
  exact List.map_congr_left h

/-- The words of a tree that was read say this tree. -/
theorem written_eq_bare (h : Derives level ls e) : e.written level = e.bare := by
  induction h with
  | @tighter level ls e _ h ih =>
    -- it was derived as something tighter, so that it needs no parentheses here either
    have hle := h.le_precedence
    rw [← ih, Expr.written_of_le hle, Expr.written_of_le (Nat.le_of_succ_le hle)]
  | sequence _ _ ih =>
    rw [Expr.bare_sequence]
    exact congrArg (Expr.sequence default) (written_parts ih)
  | assignment _ _ ihx ihv => exact congrArg₂ (Expr.assignment default) ihx ihv
  | conditional _ _ _ ihc ihx ihy =>
    change Expr.conditional default _ _ _ = _
    rw [Expr.bare_conditional, ihc, ihx, ihy]
  | @chain tag op _ _ l r hpower hconcat _ _ ihl ihr =>
    obtain ⟨hleft, hright⟩ := BinaryOp.bounds_of_ne hpower
    rw [Expr.written_of_le (Nat.le_refl op.precedence)]
    change Expr.binary default op.spoken (l.written op.leftBound) (r.written op.rightBound) = _
    rw [BinaryOp.spoken_of_ne hconcat, hleft, hright, ihl, ihr]
    rfl
  | power _ _ ihl ihr => exact congrArg₂ (Expr.binary default .power) ihl ihr
  | @sign tag op _ _ _ hop _ ih => cases op <;> cases hop <;> exact congrArg (Expr.unary default _) ih
  | element _ _ iha ihi => exact congrArg₂ (Expr.element default) iha ihi
  | @integer tag digits n hn =>
    rw [Expr.written_of_le (integer hn).le_precedence]
    change RawExpr.signed (decide ((n : Int) < 0)) (.integer n) = _
    rw [decide_eq_false (by omega)]
    rfl
  | @decimal tag digits d hd =>
    obtain ⟨hunscaled, hscale⟩ := Decimal.ofDigits?_bounds hd
    rw [Expr.written_of_le (decimal hd).le_precedence]
    change RawExpr.signed (decide (d.unscaled < 0))
      (.decimal (Decimal.ofPlain d.unscaled.natAbs d.scale)) = _
    rw [decide_eq_false (by omega), Decimal.ofPlain_eq hunscaled hscale]
    rfl
  | string | boolean | null | var => rfl
  | group _ ih => exact congrArg (Expr.unary default .group) ih
  | call _ _ ih =>
    rw [Expr.bare_call]
    exact congrArg (Expr.call default _) (written_parts ih)

/-- A tree that was read has the lexemes that it was read from. -/
theorem respells (h : Derives level ls e) :
    List.Forall₂ Respells (Word.lexemes (e.wordsAt level)) ls := by
  have hmark (m : Mark) {as bs : List Lexeme} (h : List.Forall₂ Respells as bs) :
      List.Forall₂ Respells (.mark m :: as) (.mark m :: bs) := .cons (.same _) h
  induction h with
  | @tighter level ls e _ h ih =>
    have hle := h.le_precedence
    rwa [Expr.wordsAt_of_le hle, ← Expr.wordsAt_of_le (Nat.le_of_succ_le hle)] at ih
  | sequence _ _ ih =>
    rw [Expr.wordsAt_of_le (Nat.le_refl Precedence.sequence), Expr.lexemes_sequence, List.map_map]
    exact forall₂_intercalate (hmark _ .nil) ih
  | assignment _ _ ihx ihv =>
    rw [Expr.wordsAt_of_le (Nat.le_refl Precedence.assignment), Expr.lexemes_assignment]
    exact List.rel_append ihx (hmark _ ihv)
  | conditional _ _ _ ihc ihx ihy =>
    rw [Expr.wordsAt_of_le (Nat.le_refl Precedence.conditional), Expr.lexemes_conditional]
    exact List.rel_append ihc (hmark _ (List.rel_append ihx (hmark _ ihy)))
  | @chain tag op _ _ l r hpower _ _ _ ihl ihr =>
    obtain ⟨hleft, hright⟩ := BinaryOp.bounds_of_ne hpower
    rw [Expr.wordsAt_of_le (Nat.le_refl op.precedence), Expr.lexemes_binary, hleft, hright]
    exact List.rel_append ihl (hmark _ ihr)
  | power _ _ ihl ihr =>
    rw [Expr.wordsAt_of_le (Nat.le_refl Precedence.power), Expr.lexemes_binary]
    exact List.rel_append ihl (hmark _ ihr)
  | sign hop hx ih =>
    rw [Expr.wordsAt_of_le (sign hop hx).le_precedence, Expr.lexemes_sign hop]
    exact hmark _ ih
  | element _ _ iha ihi =>
    rw [Expr.wordsAt_of_le (Nat.le_refl Precedence.primary), Expr.lexemes_element]
    exact List.rel_append iha (hmark _ (List.rel_append ihi (hmark _ .nil)))
  | @integer tag digits n hn =>
    rw [Expr.wordsAt_of_le (integer hn).le_precedence]
    change List.Forall₂ Respells (Word.lexemes (Word.signedInteger n)) _
    rw [Expr.lexemes_signedInteger, decide_eq_false (by omega)]
    exact .cons (.integer (Expr.digitsValue?_integerText n) hn) .nil
  | @decimal tag digits d hd =>
    obtain ⟨hunscaled, hscale⟩ := Decimal.ofDigits?_bounds hd
    have hsign : d.isNegative = false := decide_eq_false (by omega)
    rw [Expr.wordsAt_of_le (decimal hd).le_precedence]
    change List.Forall₂ Respells (Word.lexemes (Word.signedDecimal d)) _
    rw [Expr.lexemes_signedDecimal, hsign]
    refine .cons (.decimal (d := d) ?_ hd) .nil
    rw [String.toList_ofList, Decimal.ofDigits?_plainDigits, Decimal.ofPlain_eq hunscaled hscale]
  | @boolean _ b => cases b <;> exact .cons (.same _) .nil
  | string | null | var => exact .cons (.same _) .nil
  | group _ ih =>
    rw [Expr.wordsAt_of_le (Nat.le_refl Precedence.primary), Expr.lexemes_group]
    exact hmark _ (List.rel_append ih (hmark _ .nil))
  | call _ _ ih =>
    rw [Expr.wordsAt_of_le (Nat.le_refl Precedence.primary), Expr.lexemes_call, List.map_map]
    refine .cons (.same _) (hmark _ (List.rel_append ?_ (hmark _ .nil)))
    exact forall₂_intercalate (hmark _ .nil) ih

end Derives

/-- A text is read as a formula. -/
theorem RawExpr.formula_of_ofText {source : String} {tree : RawExpr}
    (h : ofText source = .ok tree) : tree.Formula := by
  obtain ⟨tokens, htokens, hderives⟩ := derives_of_ofText h
  refine ⟨hderives.program, hderives.named fun l hl => ?_, ?_⟩
  · obtain ⟨t, ht, rfl⟩ := List.mem_map.mp hl
    exact wellFormed_of_tokenize htokens t ht
  · rintro tag ss rfl
    rcases hderives.statements with h | ⟨tag', parts, hlength, -, -, heq⟩
    · cases h.statement with
      | plain h => cases h
    · obtain ⟨-, rfl⟩ := Expr.sequence.inj heq
      simpa using hlength

/-- A formula is written as a text that is read as what its words say. -/
theorem Expr.Formula.ofText_text_written {α : Type} {e : Expr α} (h : e.Formula) :
    ∃ tokens u, tokenize e.text = .ok tokens ∧ tokens.map Token.lexeme = Word.lexemes e.words ∧
      RawExpr.ofText e.text = .ok u ∧ u.bare = (e.written Precedence.sequence).bare := by
  obtain ⟨tokens, htokens, hlexemes⟩ := Expr.tokenize_text h.named
  obtain ⟨u, hu, hbare⟩ := RawExpr.ofText_of_derives htokens (hlexemes ▸ h.derives)
  exact ⟨tokens, u, htokens, hlexemes, hu, hbare⟩

/-- **What was read is written as it was read**, up to blanks and the spelling of its numbers: the
lexemes of the source and of the printed tree are the same or say the same number, one by one, and
the printed tree is read as a tree of the same shape. -/
theorem RawExpr.ofText_text {source : String} {tree : RawExpr} (h : ofText source = .ok tree) :
    ∃ tokens printed, tokenize source = .ok tokens ∧ tokenize tree.text = .ok printed ∧
      List.Forall₂ Respells (printed.map Token.lexeme) (tokens.map Token.lexeme) ∧
      ∃ u, ofText tree.text = .ok u ∧ u.sameShape tree = true := by
  obtain ⟨tokens, htokens, hderives⟩ := derives_of_ofText h
  obtain ⟨printed, u, hprinted, hlexemes, hu, hbare⟩ := (formula_of_ofText h).ofText_text_written
  refine ⟨tokens, printed, htokens, hprinted, ?_, u, hu, Expr.sameShape_of_bare ?_⟩
  · rw [hlexemes]
    exact hderives.respells
  · rw [hbare, hderives.written_eq_bare, Expr.bare, Expr.bare, Expr.mapNodes_mapNodes]
    rfl

/-- Blanks and leading zeros are not kept. -/
theorem RawExpr.ofText_text_number : ∃ tree, ofText "(a+007)*2.50" = .ok tree ∧
    ∃ tokens printed, tokenize "(a+007)*2.50" = .ok tokens ∧ tokenize tree.text = .ok printed ∧
      List.Forall₂ Respells (printed.map Token.lexeme) (tokens.map Token.lexeme) ∧
      ∃ u, ofText tree.text = .ok u ∧ u.sameShape tree = true := by
  obtain ⟨tree, h⟩ : ∃ tree, ofText "(a+007)*2.50" = .ok tree := ⟨_, by cbv⟩
  exact ⟨tree, h, ofText_text h⟩

/-! ## All formulas -/

/-- **A formula is written as a text that is read as the formula**, up to what the text cannot say:
its normal form is kept. -/
theorem Expr.Formula.ofText_text_normal {α : Type} {e : Expr α} (h : e.Formula) :
    ∃ u, RawExpr.ofText e.text = .ok u ∧ u.normal.sameShape e.normal = true := by
  obtain ⟨tokens, u, -, -, hu, hbare⟩ := h.ofText_text_written
  refine ⟨u, hu, ?_⟩
  rw [← u.normal_bare, hbare, normal_bare]
  exact e.normal_written _

/-- A negative base needs parentheses, which the text has and the tree has not. -/
theorem Expr.Formula.ofText_text_normal_base :
    ∃ u, RawExpr.ofText (Expr.text (α := Unit) (.binary default .power
        (.literal default (.integer (-2))) (.var default "n"))) = .ok u ∧
      u.normal.sameShape (Expr.normal (α := Unit) (.binary default .power
        (.literal default (.integer (-2))) (.var default "n"))) = true := by
  refine Expr.Formula.ofText_text_normal ⟨.statement (.plain (.binary (.literal _ _) (.var _ _))),
    ?_, fun h => by cases h⟩
  intro x hx
  rw [List.mem_singleton.mp hx]
  exact ⟨rfl, by decide⟩

end ComputedField
