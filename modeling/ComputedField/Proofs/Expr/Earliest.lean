import ComputedField.Proofs.Decimal.Notation
import ComputedField.Proofs.Expr.Viable
import ComputedField.Proofs.Token.Order
import Mathlib

/-!
# Errors are reported at the earliest token

A text is refused at the first fault of its scan, or at the first of its tokens that no formula goes
on with (`ofText_earliest`).
-/

set_option autoImplicit false

namespace ComputedField

/-! ## Texts -/

theorem not_mem_intercalate {α : Type} {separator : List α} {xss : List (List α)} {x : α}
    (hseparator : x ∉ separator) (hxss : ∀ xs ∈ xss, x ∉ xs) : x ∉ separator.intercalate xss := by
  induction xss with
  | nil => exact List.not_mem_nil
  | cons ys xss ih =>
    have hys := hxss ys List.mem_cons_self
    cases xss with
    | nil => rwa [List.intercalate_singleton]
    | cons zs xss =>
      have htail := ih fun xs hxs => hxss xs (List.mem_cons_of_mem _ hxs)
      rw [List.intercalate_cons_cons, List.mem_append, List.mem_append]
      exact not_or.mpr ⟨not_or.mpr ⟨hys, hseparator⟩, htail⟩

/-- The end of the input is a part of no expression. -/
theorem Derives.endOfInput_not_mem {level : Nat} {ls : List Lexeme} {e : RawExpr}
    (h : Derives level ls e) : .endOfInput ∉ ls := by
  have hparts (m : Mark) (parts : List (List Lexeme × RawExpr))
      (ih : ∀ p ∈ parts, Lexeme.endOfInput ∉ p.1) :
      Lexeme.endOfInput ∉ [.mark m].intercalate (parts.map Prod.fst) := by
    refine not_mem_intercalate (by simp) fun ls hls => ?_
    obtain ⟨p, hp, rfl⟩ := List.mem_map.mp hls
    exact ih p hp
  induction h with
  | tighter _ _ ih => exact ih
  | sequence _ _ ih => exact hparts _ _ ih
  | call _ _ ih =>
    have := hparts .comma _ ih
    simpa using this
  | _ => simp_all

/-- Digits that were scanned are the digits of a number. -/
theorem Lexeme.literal?_ne_error {l : Lexeme} (h : l.wellFormed = true) (fault : GrammarFault) :
    l.literal? ≠ some (.error fault) := by
  intro hliteral
  cases l with
  | integer ds =>
    obtain ⟨n, hn⟩ := exists_digitsValue? h
    simp [literal?, hn] at hliteral
  | decimal ds =>
    obtain ⟨d, hd⟩ := exists_ofDigits? h
    simp [literal?, hd] at hliteral
  | identifier x =>
    obtain ⟨v, -, hv⟩ := Option.map_eq_some_iff.mp hliteral
    cases hv
  | endOfInput | string | mark => cases hliteral

/-- A scanned item that an error is about is a fault, or a token in the wrong place. -/
theorem MetAt.of_scan {stop : Position} {rest : List Item} {e : ReadError} (h : MetAt stop rest e)
    (hrest : ∀ t : Token, .ok t ∈ rest → t.lexeme.wellFormed = true) :
    (∃ fault more, rest = .error fault :: more ∧ e = .scan fault) ∨
      ∃ t asked, nextToken stop rest = .ok t ∧ e = .unexpected t asked := by
  cases h with
  | scan => exact .inl ⟨_, _, rfl, rfl⟩
  | unexpected _ ht => exact .inr ⟨_, _, ht, rfl⟩
  | literal hliteral =>
    exact absurd hliteral (Lexeme.literal?_ne_error (hrest _ List.mem_cons_self) _)

namespace RawExpr

variable {text : String} {e : ReadError}

theorem failsAt_ofText (h : ofText text = .error e) :
    ∃ (tokens : List Token) (rest : List Item),
      (Scan.ofText text).items = tokens.map .ok ++ rest ∧
      MetAt (Scan.ofText text).stop rest e ∧
      Completes (Sentence Precedence.sequence) (tokens.map Token.lexeme) ∧
      ∀ rest', rest'.head? = rest.head? →
        readStatements (Scan.ofText text).stop (tokens.map .ok ++ rest') = .error e := by
  have hread (ts : List Item) :
      Reader.statements (Scan.ofText text).stop ts = .error e ↔
        readStatements (Scan.ofText text).stop ts = .error e := by
    rw [Reader.statements]
    cases readStatements (Scan.ofText text).stop ts <;> simp [Except.map]
  unfold ofText ofScan at h
  rcases bind_eq_error.mp h with h | ⟨r, -, h⟩
  · obtain ⟨tokens, rest, hts, hmet, hcompletes, hlocal⟩ :=
      Reader.failsAt_statements _ _ e ((hread _).mpr h)
    exact ⟨tokens, rest, hts, hmet, hcompletes.imp fun _ => Sentence.sequence,
      fun rest' hrest' => (hread _).mp (hlocal rest' hrest')⟩
  · cases h

/-- The faults of the grammar are tokens in the wrong place: the error is the first fault of the
text, or about a token or the end of the text. -/
theorem error_of_ofText (h : ofText text = .error e) :
    ∃ (tokens : List Token) (rest : List Item),
      (Scan.ofText text).items = tokens.map .ok ++ rest ∧
      ((∃ fault more, rest = .error fault :: more ∧ e = .scan fault) ∨
        ∃ t asked, nextToken (Scan.ofText text).stop rest = .ok t ∧ e = .unexpected t asked) := by
  obtain ⟨tokens, rest, hitems, hmet, -⟩ := failsAt_ofText h
  refine ⟨tokens, rest, hitems, hmet.of_scan fun t ht => ?_⟩
  have hmem : .ok t ∈ (Scan.ofText text).items := by
    rw [hitems]
    exact List.mem_append_right _ ht
  exact Scan.wellFormed_of_mem_items hmem

/-- The tokens of a text and the end of the input behind them. -/
def ended (text : String) (tokens : List Token) : List Token :=
  tokens ++ [⟨.endOfInput, (Scan.ofText text).stop⟩]

/-- No two of the tokens stand in one place. -/
theorem ended_inj {tokens : List Token} (htokens : tokenize text = .ok tokens) {t : Token}
    {i j : Nat} (hi : (ended text tokens)[i]? = some t) (hj : (ended text tokens)[j]? = some t) :
    i = j := by
  have hplaces : (Scan.ofText text).places = (ended text tokens).map Token.pos := by
    rw [Scan.places, Scan.tokens_eq_ok.mp htokens, ended, List.map_append, List.map_map]
    rfl
  have hplace {k : Nat} (hk : (ended text tokens)[k]? = some t) :
      (Scan.ofText text).places[k]? = some t.pos := by
    rw [hplaces, List.getElem?_map, hk]
    rfl
  exact Scan.places_inj (hplace hi) (hplace hj)

theorem ended_eq_of_nextToken (before : List Token) {behind : List Token} {t : Token}
    (hnext : nextToken (Scan.ofText text).stop (behind.map .ok) = .ok t) :
    ∃ more, ended text (before ++ behind) = before ++ t :: more := by
  cases behind with
  | nil =>
    cases hnext
    exact ⟨[], by rw [List.append_nil]; rfl⟩
  | cons t' behind =>
    cases hnext
    exact ⟨behind ++ [⟨.endOfInput, (Scan.ofText text).stop⟩], by simp [ended]⟩

/-- A formula that begins with the tokens up to and with `t` has tokens of its own behind them, or
ends where they do. -/
theorem exists_tokens_of_prefix {stop : Position} {before behind : List Token} {t : Token}
    {ls : List Lexeme} (hwellFormed : ∀ t ∈ behind, t.lexeme.wellFormed = true)
    (hnext : nextToken stop (behind.map .ok) = .ok t) (hend : .endOfInput ∉ ls)
    (h : before.map Token.lexeme ++ [t.lexeme] <+: ls ++ [.endOfInput]) :
    ∃ rest : List Token, ls = (before ++ rest).map Token.lexeme ∧
      (rest.map Except.ok : List Item).head? = (behind.map Except.ok : List Item).head? := by
  obtain ⟨more, hmore⟩ := h
  rcases List.eq_nil_or_concat more with rfl | ⟨more, l, rfl⟩
  · rw [List.append_nil] at hmore
    obtain ⟨hbefore, hlexeme⟩ := List.append_inj' hmore rfl
    refine ⟨[], by simpa using hbefore.symm, ?_⟩
    cases behind with
    | nil => rfl
    | cons t' behind =>
      -- a token is not the end of the input
      cases hnext
      have := hwellFormed t List.mem_cons_self
      rw [(List.cons.inj hlexeme).1] at this
      cases this
  · rw [List.concat_eq_append, ← List.append_assoc] at hmore
    obtain ⟨hls, -⟩ := List.append_inj' hmore rfl
    cases behind with
    | nil =>
      cases hnext
      refine absurd ?_ hend
      simp [← hls]
    | cons t' behind =>
      cases hnext
      refine ⟨t :: more.map (⟨·, .start⟩), ?_, rfl⟩
      simp [← hls, Function.comp_def]

/-- No formula begins with the tokens up to and with the one that is refused. -/
theorem not_prefix_of_fails {stop : Position} {before behind : List Token} {t : Token}
    (hwellFormed : ∀ t ∈ behind, t.lexeme.wellFormed = true)
    (hnext : nextToken stop (behind.map .ok) = .ok t)
    (hlocal : ∀ rest : List Item, rest.head? = (behind.map Except.ok : List Item).head? →
      readStatements stop (before.map .ok ++ rest) = .error e)
    {ls : List Lexeme} (hls : Sentence Precedence.sequence ls) :
    ¬ before.map Token.lexeme ++ [t.lexeme] <+: ls ++ [.endOfInput] := by
  intro h
  obtain ⟨tree, htree⟩ := hls
  obtain ⟨rest, rfl, hhead⟩ :=
    exists_tokens_of_prefix hwellFormed hnext htree.endOfInput_not_mem h
  obtain ⟨first, others, hread, -⟩ :=
    readStatements_of_derives stop htree ⟨before ++ rest, (List.append_nil _).symm, rfl⟩
  rw [List.map_append, hlocal _ hhead] at hread
  cases hread

/-- **Errors are reported at the earliest token.** Where a text with tokens is refused for a token,
this is one of its tokens or the end of the input, there is only one in its place, the tokens before
it can be completed to a formula, and no formula begins with them and with it. No text is refused
for the digits of a number. -/
theorem ofText_earliest :
    (∀ text tokens pos found asked, tokenize text = .ok tokens →
      ofText text = .error (.grammar ⟨pos, .unexpected found asked⟩) →
      ∃ i, (ended text tokens)[i]? = some ⟨found, pos⟩ ∧
        (∀ j, (ended text tokens)[j]? = some ⟨found, pos⟩ → j = i) ∧
        Completes (Sentence Precedence.sequence) ((tokens.take i).map Token.lexeme) ∧
        ∀ ls, Sentence Precedence.sequence ls →
          ¬ ((ended text tokens).take (i + 1)).map Token.lexeme <+: ls ++ [.endOfInput]) ∧
    ∀ text pos digits, ofText text ≠ .error (.grammar ⟨pos, .illegalNumber digits⟩) := by
  constructor
  · intro text tokens pos found asked htokens herror
    obtain ⟨before, rest, hitems, hmet, hcompletes, hlocal⟩ := failsAt_ofText herror
    rw [Scan.tokens_eq_ok.mp htokens] at hitems
    obtain ⟨before', behind, rfl, hbefore, rfl⟩ := List.map_eq_append_iff.mp hitems
    obtain rfl := tokens_inj hbefore
    have hwellFormed (t : Token) (ht : t ∈ behind) : t.lexeme.wellFormed = true :=
      wellFormed_of_tokenize htokens t (List.mem_append_right _ ht)
    rcases hmet.of_scan fun t ht => hwellFormed t (by simpa using ht) with
      ⟨fault, more, -, he⟩ | ⟨t, asked', hnext, he⟩
    · cases he
    · cases he
      obtain ⟨more, hended⟩ := ended_eq_of_nextToken before' hnext
      have hget : (ended text (before' ++ behind))[before'.length]? = some t := by simp [hended]
      refine ⟨before'.length, hget, fun j hj => ended_inj htokens hj hget,
        by simpa using hcompletes, fun ls hls => ?_⟩
      have htake : (ended text (before' ++ behind)).take (before'.length + 1) = before' ++ [t] := by
        simp [hended, List.take_append]
      rw [htake, List.map_append]
      exact not_prefix_of_fails hwellFormed hnext hlocal hls
  · intro text pos digits herror
    obtain ⟨_, _, _, ⟨fault, more, _, he⟩ | ⟨t, asked, _, he⟩⟩ := error_of_ofText herror
    · cases he
    · cases he

/-- Two names in a row: the first can be completed, and no formula begins with both. -/
theorem ofText_earliest_names :
    Completes (Sentence Precedence.sequence) [.identifier "a"] ∧
      ∀ ls, Sentence Precedence.sequence ls →
        ¬ [.identifier "a", .identifier "b"] <+: ls ++ [.endOfInput] := by
  obtain ⟨i, -, hunique, hcompletes, hprefix⟩ :=
    ofText_earliest.1 "a b" [⟨.identifier "a", ⟨1, 1⟩⟩, ⟨.identifier "b", ⟨1, 3⟩⟩] ⟨1, 3⟩
      (.identifier "b") .statementEnd (by cbv) (by cbv)
  obtain rfl := hunique 1 rfl
  exact ⟨hcompletes, hprefix⟩

end RawExpr

end ComputedField
