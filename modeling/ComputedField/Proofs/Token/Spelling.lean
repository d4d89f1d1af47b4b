import ComputedField.Expr.Print
import ComputedField.Proofs.Outcome
import ComputedField.Token.Scan

/-!
# Lexemes and their spelling

Scanning yields well-formed lexemes only (`wellFormed_of_tokenize`), and a well-formed lexeme is
scanned as it is written as long as the text behind it does not go on with it (`next_spelling`). So a
line whose words end where they should is scanned word for word (`tokenize_line`).
-/

set_option autoImplicit false

namespace ComputedField

/-! ## Well-formed lexemes -/

/-- A letter or underscore, and letters, digits and underscores behind it. -/
def isName (s : String) : Bool :=
  match s.toList with
  | [] => false
  | c :: cs => isNameStart c && cs.all isNamePart

/-- A run of digits with as many points in it, none of them in front. -/
def isNumber (points : Nat) (s : String) : Bool :=
  match s.toList with
  | [] => false
  | c :: cs => c.isDigit && cs.all isNumberPart && (c :: cs).count '.' == points

theorem isName_iff {s : String} :
    isName s = true ↔ ∃ c cs, s.toList = c :: cs ∧ isNameStart c = true ∧
      cs.all isNamePart = true := by
  unfold isName
  cases s.toList <;> simp [and_assoc]

theorem isNumber_iff {points : Nat} {s : String} :
    isNumber points s = true ↔ ∃ c cs, s.toList = c :: cs ∧ c.isDigit = true ∧
      cs.all isNumberPart = true ∧ (c :: cs).count '.' = points := by
  unfold isNumber
  cases s.toList <;> simp [and_assoc]

namespace Lexeme

/-- What a lexeme says can be written as one. The end of input is never written. -/
def wellFormed : Lexeme → Bool
  | endOfInput => false
  | identifier s => isName s
  | integer s => isNumber 0 s
  | decimal s => isNumber 1 s
  | string _ | mark _ => true

/-- The text behind the lexeme does not go on with it. -/
def endsBefore (next : List Char) : Lexeme → Bool
  | identifier _ => !next.head?.any isNamePart
  | integer _ | decimal _ => !next.head?.any isNumberPart
  | mark .bang | mark .less | mark .greater => next.head? != some '='
  | mark .assign => next.head?.any (· != '=')
  | endOfInput | string _ | mark _ => true

end Lexeme

theorem wellFormed_of_numberLexeme {c : Char} {cs : List Char} {l : Lexeme}
    (hc : c.isDigit = true) (hcs : cs.all isNumberPart = true)
    (h : numberLexeme (c :: cs) = .ok l) : l.wellFormed = true := by
  unfold numberLexeme at h
  split at h
  · next hpoints =>
    cases h
    simp [Lexeme.wellFormed, isNumber, hc, hcs, hpoints]
  · next hpoints =>
    cases h
    simp [Lexeme.wellFormed, isNumber, hc, hcs, hpoints]
  · cases h

theorem Piece.wellFormed_of_ofMark {c : Char} {rest : List Char} {l : Lexeme}
    (h : (ofMark c rest).content = .ok l) : l.wellFormed = true := by
  unfold ofMark at h
  simp only at h
  split at h <;> cases h <;> rfl

/-- What is read as a lexeme is a well-formed one. -/
theorem Piece.wellFormed_of_next {c : Char} {rest : List Char} {l : Lexeme}
    (h : (next c rest).content = .ok l) : l.wellFormed = true := by
  unfold next at h
  split at h
  · next hc =>
    cases h
    simp [Lexeme.wellFormed, isName, hc]
  · split at h
    · next hc => exact wellFormed_of_numberLexeme hc List.all_takeWhile h
    · split at h
      · cases hbody : (stringBody rest).content with
        | error => simp [hbody, Except.map] at h
        | ok s =>
          simp only [hbody, Except.map, Except.ok.injEq] at h
          rw [← h]
          rfl
      · exact wellFormed_of_ofMark h

namespace Scan

theorem wellFormed_of_mem_items {lines : Lines} {offset : Nat} {cs : List Char} {t : Token}
    (h : .ok t ∈ itemsFrom lines offset cs) : t.lexeme.wellFormed = true := by
  fun_induction itemsFrom lines offset cs with
  | case1 => cases h
  | case2 offset c rest _ ih => exact ih h
  | case3 offset c rest _ piece pos ih =>
    rcases List.mem_cons.mp h with h | h
    · cases hpiece : piece.content with
      | error => simp [hpiece, Except.map] at h
      | ok l =>
        simp only [hpiece, Position.report_ok, Except.map, Except.ok.injEq] at h
        rw [h]
        exact Piece.wellFormed_of_next hpiece
    · exact ih h

theorem tokens_eq_ok {s : Scan} {ts : List Token} :
    s.tokens = .ok ts ↔ s.items = ts.map .ok := by
  unfold tokens
  generalize s.items = items
  induction items generalizing ts with
  | nil => cases ts <;> simp
  | cons item items ih =>
    rw [List.mapM_cons]
    cases item with
    | error e => cases ts <;> simp
    | ok t =>
      cases ts with
      | nil => simp [bind_eq_ok]
      | cons t' ts =>
        simp only [id, ok_bind, bind_eq_ok, pure_eq_ok, Except.ok.injEq, List.map_cons,
          List.cons.injEq, ih]
        constructor
        · rintro ⟨ts', rfl, rfl, rfl⟩
          exact ⟨rfl, rfl⟩
        · rintro ⟨rfl, rfl⟩
          exact ⟨ts, rfl, rfl, rfl⟩

end Scan

/-- Tokens are well-formed. -/
theorem wellFormed_of_tokenize {text : String} {tokens : List Token}
    (h : tokenize text = .ok tokens) : ∀ t ∈ tokens, t.lexeme.wellFormed = true := by
  intro t ht
  have hmem : .ok t ∈ (Scan.ofText text).items := by
    rw [Scan.tokens_eq_ok.mp h]
    exact List.mem_map_of_mem ht
  exact Scan.wellFormed_of_mem_items hmem

/-! ## Reading what was written -/

/-- The longest piece that `p` holds of is the one written, where `p` fails of what follows. -/
theorem takeWhile_append_of_head {α : Type} {p : α → Bool} {xs next : List α}
    (hxs : xs.all p = true) (hnext : next.head?.any p = false) :
    (xs ++ next).takeWhile p = xs ∧ (xs ++ next).dropWhile p = next := by
  have hxs := List.all_eq_true.mp hxs
  rw [List.takeWhile_append_of_pos hxs, List.dropWhile_append_of_pos hxs]
  cases next with
  | nil => simp
  | cons c next => simp_all

/-- The inside of a string, up to but without the quote that ends it, and what it stands for: each
backslash is dropped and the character behind it taken as it is. -/
inductive Quoted : List Char → List Char → Prop where
  | nil : Quoted [] []
  | plain {c : Char} {body value : List Char} : c ≠ '\'' → c ≠ '\\' → Quoted body value →
      Quoted (c :: body) (c :: value)
  | escaped {c : Char} {body value : List Char} : Quoted body value →
      Quoted ('\\' :: c :: body) (c :: value)

theorem quoted_escaped (s : List Char) : Quoted (escaped s) s := by
  induction s with
  | nil => exact .nil
  | cons c s ih =>
    rw [escaped]
    split
    · exact .escaped ih
    · next hc =>
      obtain ⟨hquote, hslash⟩ := not_or.mp hc
      exact .plain hquote hslash ih

/-- What is quoted is read, and the rest behind it as if it stood alone. -/
theorem Piece.stringBody_of_quoted {body value : List Char} (h : Quoted body value)
    (cs : List Char) :
    stringBody (body ++ cs) =
      ⟨body ++ (stringBody cs).spelling, (stringBody cs).content.map (value ++ ·),
        (stringBody cs).rest⟩ := by
  have hmap (c : Char) (value : List Char) (content : Except ScanFault (List Char)) :
      (content.map (value ++ ·)).map (c :: ·) = content.map (c :: value ++ ·) := by
    cases content <;> rfl
  induction h with
  | nil =>
    have hself : (stringBody cs).content.map ([] ++ ·) = (stringBody cs).content := by
      cases (stringBody cs).content <;> rfl
    rw [hself]
    rfl
  | plain hquote hslash _ ih =>
    rw [List.cons_append, stringBody, ih]
    · simp only [hmap, List.cons_append]
    · exact fun h => hquote h
    · exact fun h _ => hslash h
    · exact fun _ _ h => absurd h hslash
  | escaped _ ih => simp only [List.cons_append, stringBody, ih, hmap]

theorem Piece.stringBody_quoted {body value : List Char} (h : Quoted body value)
    (rest : List Char) :
    stringBody (body ++ '\'' :: rest) = ⟨body ++ ['\''], .ok value, rest⟩ := by
  rw [stringBody_of_quoted h]
  simp [stringBody, one, Except.map]

theorem isBlank_eq_false {c : Char} {p : Char → Bool} (h : p c = true)
    (hp : p ' ' = false ∧ p '\t' = false ∧ p '\r' = false ∧ p '\n' = false) :
    isBlank c = false := by
  obtain ⟨hspace, htab, hreturn, hfeed⟩ := hp
  unfold isBlank
  simp only [Bool.or_eq_false_iff, beq_eq_false_iff_ne]
  refine ⟨⟨⟨?_, ?_⟩, ?_⟩, ?_⟩ <;> rintro rfl <;> simp_all

theorem isNameStart_of_isDigit {c : Char} (h : c.isDigit = true) : isNameStart c = false := by
  have hc : 48 ≤ c.toNat ∧ c.toNat ≤ 57 := by
    simpa [Char.isDigit, UInt32.le_iff_toNat_le] using h
  have hne : c ≠ '_' := by
    rintro rfl
    exact absurd h (by decide)
  have hupper : c.isUpper = false := by
    refine decide_eq_false fun hletter => ?_
    have : 65 ≤ c.toNat := hletter.1
    omega
  have hlower : c.isLower = false := by
    change (decide (97 ≤ c.toNat) && decide (c.toNat ≤ 122)) = false
    rw [decide_eq_false (by omega), Bool.false_and]
  change ((c.isUpper || c.isLower) || c == '_') = false
  simp [hupper, hlower, hne]

namespace Piece

variable {next : List Char}

theorem next_identifier {s : String} (hs : isName s = true)
    (hnext : next.head?.any isNamePart = false) :
    ∃ c cs, s.toList = c :: cs ∧ isBlank c = false ∧
      Piece.next c (cs ++ next) = ⟨c :: cs, .ok (.identifier s), next⟩ := by
  obtain ⟨c, cs, hspell, hc, hcs⟩ := isName_iff.mp hs
  obtain ⟨htake, hdrop⟩ := takeWhile_append_of_head hcs hnext
  refine ⟨c, cs, hspell, isBlank_eq_false hc (by decide), ?_⟩
  rw [Piece.next, if_pos hc, htake, hdrop]
  simp only [← hspell, String.ofList_toList]

theorem next_number {points : Nat} {s : String} (hs : isNumber points s = true)
    (hnext : next.head?.any isNumberPart = false) :
    ∃ c cs, s.toList = c :: cs ∧ isBlank c = false ∧ s.toList.count '.' = points ∧
      Piece.next c (cs ++ next) = ⟨c :: cs, numberLexeme s.toList, next⟩ := by
  obtain ⟨c, cs, hspell, hc, hcs, hpoints⟩ := isNumber_iff.mp hs
  obtain ⟨htake, hdrop⟩ := takeWhile_append_of_head hcs hnext
  refine ⟨c, cs, hspell, isBlank_eq_false hc (by decide), hspell ▸ hpoints, ?_⟩
  rw [Piece.next, if_neg (by rw [isNameStart_of_isDigit hc]; decide), if_pos hc, htake, hdrop,
    hspell]

theorem next_eq_ofMark {c : Char} (h : isNameStart c = false ∧ c.isDigit = false ∧ c ≠ '\'')
    (rest : List Char) : Piece.next c rest = ofMark c rest := by
  simp [Piece.next, h]

/-- Four marks are written like the beginning of longer ones; no other mark goes on. -/
theorem next_mark {m : Mark} (h : (Lexeme.mark m).endsBefore next = true) :
    ∃ c cs, m.spelling.toList = c :: cs ∧ isBlank c = false ∧
      Piece.next c (cs ++ next) = ⟨c :: cs, .ok (.mark m), next⟩ := by
  rcases next with _ | ⟨d, ds⟩
  · cases m with
    | assign => cases h
    | _ => exact ⟨_, _, rfl, rfl, rfl⟩
  · cases m with
    | bang =>
      refine ⟨'!', [], rfl, rfl, (next_eq_ofMark (by decide) _).trans ?_⟩
      have hd : d ≠ '=' := by simpa [Lexeme.endsBefore] using h
      simp [ofMark, one, hd]
    | less =>
      refine ⟨'<', [], rfl, rfl, (next_eq_ofMark (by decide) _).trans ?_⟩
      have hd : d ≠ '=' := by simpa [Lexeme.endsBefore] using h
      simp [ofMark, one, hd]
    | greater =>
      refine ⟨'>', [], rfl, rfl, (next_eq_ofMark (by decide) _).trans ?_⟩
      have hd : d ≠ '=' := by simpa [Lexeme.endsBefore] using h
      simp [ofMark, one, hd]
    | assign =>
      refine ⟨'=', [], rfl, rfl, (next_eq_ofMark (by decide) _).trans ?_⟩
      have hd : d ≠ '=' := by simpa [Lexeme.endsBefore] using h
      simp [ofMark, one, hd]
    | _ => exact ⟨_, _, rfl, rfl, rfl⟩

/-- A well-formed lexeme is read as it is written where it ends. -/
theorem next_spelling {l : Lexeme} (hl : l.wellFormed = true)
    (hnext : l.endsBefore next = true) :
    ∃ c cs, l.spelling = c :: cs ∧ isBlank c = false ∧
      Piece.next c (cs ++ next) = ⟨c :: cs, .ok l, next⟩ := by
  cases l with
  | endOfInput => cases hl
  | identifier s =>
    exact next_identifier hl (by simpa only [Lexeme.endsBefore, Bool.not_eq_true'] using hnext)
  | integer s | decimal s =>
    obtain ⟨c, cs, hspell, hc, hpoints, hread⟩ :=
      next_number hl (by simpa only [Lexeme.endsBefore, Bool.not_eq_true'] using hnext)
    refine ⟨c, cs, hspell, hc, ?_⟩
    rw [hread, numberLexeme, hpoints, String.ofList_toList]
    rfl
  | string s =>
    refine ⟨'\'', escaped s.toList ++ ['\''], rfl, rfl, ?_⟩
    rw [Piece.next, if_neg (by decide), if_neg (by decide), if_pos rfl, List.append_assoc,
      List.singleton_append, stringBody_quoted (quoted_escaped _)]
    simp only [Except.map, String.ofList_toList]
  | mark m => exact next_mark hnext

end Piece

/-! ## Lines -/

namespace Word

/-- The lexemes of a row of words. -/
def lexemes : List Word → List Lexeme
  | [] => []
  | lexeme l :: ws => l :: lexemes ws
  | blank :: ws => lexemes ws

@[simp] theorem lexemes_append (ws vs : List Word) :
    lexemes (ws ++ vs) = lexemes ws ++ lexemes vs := by
  induction ws with
  | nil => rfl
  | cons w ws ih => cases w <;> simp [lexemes, ih]

/-- Every lexeme in the row is well-formed and ends where the next word begins; `next` is the text
behind the row. -/
def Legible : List Word → List Char → Prop
  | [], _ => True
  | lexeme l :: ws, next =>
    l.wellFormed = true ∧ l.endsBefore (ws.flatMap spelling ++ next) = true ∧ Legible ws next
  | blank :: ws, next => Legible ws next

theorem legible_append {ws vs : List Word} {next : List Char} :
    Legible (ws ++ vs) next ↔ Legible ws (vs.flatMap spelling ++ next) ∧ Legible vs next := by
  induction ws with
  | nil => simp [Legible]
  | cons w ws ih =>
    cases w with
    | blank => exact ih
    | lexeme l => simp [Legible, ih, List.flatMap_append, and_assoc]

end Word

theorem Scan.items_of_legible {ws : List Word} (lines : Lines) (offset : Nat)
    (h : Word.Legible ws []) :
    ∃ tokens : List Token,
      itemsFrom lines offset (ws.flatMap Word.spelling) = tokens.map .ok ∧
        tokens.map Token.lexeme = Word.lexemes ws := by
  induction ws generalizing offset with
  | nil => exact ⟨[], by simp [itemsFrom], rfl⟩
  | cons w ws ih =>
    cases w with
    | blank =>
      obtain ⟨tokens, hitems, hlexemes⟩ := ih (offset + Char.utf8Size ' ') h
      refine ⟨tokens, ?_, hlexemes⟩
      rw [List.flatMap_cons, Word.spelling, List.singleton_append, itemsFrom, if_pos (by decide),
        hitems]
    | lexeme l =>
      obtain ⟨hl, hend, hws⟩ := h
      rw [List.append_nil] at hend
      obtain ⟨c, cs, hspell, hc, hread⟩ := Piece.next_spelling hl hend
      obtain ⟨tokens, hitems, hlexemes⟩ := ih (offset + byteLength (c :: cs)) hws
      refine ⟨⟨l, lines.position offset⟩ :: tokens, ?_, congrArg (l :: ·) hlexemes⟩
      rw [List.flatMap_cons, Word.spelling, hspell, List.cons_append, itemsFrom, hc,
        if_neg (by decide)]
      simp only [hread, hitems, Position.report_ok, List.map_cons]
      rfl

/-- **A line whose words end where they should is scanned word for word.** -/
theorem tokenize_line {ws : List Word} (h : Word.Legible ws []) :
    ∃ tokens, tokenize (Word.line ws) = .ok tokens ∧
      tokens.map Token.lexeme = Word.lexemes ws := by
  obtain ⟨tokens, hitems, hlexemes⟩ := Scan.items_of_legible (.ofText (Word.line ws)) 0 h
  refine ⟨tokens, Scan.tokens_eq_ok.mpr ?_, hlexemes⟩
  rw [← hitems, Scan.ofText, Word.line, String.toList_ofList]

end ComputedField
