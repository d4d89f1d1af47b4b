import ComputedField.Proofs.Token.Lines
import ComputedField.Proofs.Token.Spelling
import Mathlib

/-!
# How a text falls apart

`Splits` describes the division of a text into runs of blanks, spelled lexemes and faults, each with
the place of its first character; `Lexeme.SpelledBy` and `ScanFault.CausedBy` say which characters
are a lexeme and which a fault. Every text can be divided like this in one way, and scanning does it
(`splits_ofText`): it takes the longest spelling wherever there is one, and goes on behind a fault.
-/

set_option autoImplicit false

namespace ComputedField

/-! ## Spellings -/

/-- The characters of `spelling` are the lexeme, where `rest` stands behind them. Only the last of
all characters is an equals sign that tests for equality. -/
inductive Lexeme.SpelledBy : Lexeme → List Char → List Char → Prop where
  | identifier {s : String} {rest : List Char} : isName s = true →
      SpelledBy (.identifier s) s.toList rest
  | integer {s : String} {rest : List Char} : isNumber 0 s = true →
      SpelledBy (.integer s) s.toList rest
  | decimal {s : String} {rest : List Char} : isNumber 1 s = true →
      SpelledBy (.decimal s) s.toList rest
  | string {body value rest : List Char} : Quoted body value →
      SpelledBy (.string (String.ofList value)) ('\'' :: (body ++ ['\''])) rest
  | mark {m : Mark} {rest : List Char} : m ≠ .assign → SpelledBy (.mark m) m.spelling.toList rest
  | assign {rest : List Char} : rest ≠ [] → SpelledBy (.mark .assign) ['='] rest
  | lastEqual : SpelledBy (.mark .equal) ['='] []

/-- A lexeme is spelled at the beginning of the text. -/
def Begins (cs : List Char) : Prop :=
  ∃ lexeme spelling rest, Lexeme.SpelledBy lexeme spelling rest ∧ spelling ++ rest = cs

/-- No lexeme at the beginning of the text has a longer spelling. -/
def IsLongest (spelling cs : List Char) : Prop :=
  ∀ other longer behind, Lexeme.SpelledBy other longer behind → longer ++ behind = cs →
    longer.length ≤ spelling.length

/-- The characters of `spelling` are a fault, where `rest` stands behind them: one character with
which nothing begins, a whole run of digits and points, or all that is left of the text. -/
inductive ScanFault.CausedBy : ScanFault → List Char → List Char → Prop where
  | unexpectedCharacter {c : Char} {rest : List Char} : ¬ Begins (c :: rest) →
      isBlank c = false → c ≠ '\'' → c ≠ '&' → c ≠ '|' →
      CausedBy (.unexpectedCharacter c) [c] rest
  | halfAnd {rest : List Char} : ¬ Begins ('&' :: rest) → CausedBy (.halfMark .and) ['&'] rest
  | halfOr {rest : List Char} : ¬ Begins ('|' :: rest) → CausedBy (.halfMark .or) ['|'] rest
  | malformedNumber {points : Nat} {s : String} {rest : List Char} : isNumber points s = true →
      2 ≤ points → rest.head?.any isNumberPart = false →
      CausedBy (.malformedNumber s) s.toList rest
  | unterminatedString {body value : List Char} : Quoted body value →
      CausedBy .unterminatedString ('\'' :: body) []
  | unterminatedEscape {body value : List Char} : Quoted body value →
      CausedBy .unterminatedEscape ('\'' :: (body ++ ['\\'])) []

/-- A fault stands at the beginning of the text. -/
def BeginsFault (cs : List Char) : Prop :=
  ∃ fault spelling rest, ScanFault.CausedBy fault spelling rest ∧ spelling ++ rest = cs

/-- Behind `before` the text falls apart into these items. Between them are runs of blanks. A lexeme
stands where no fault does, with the longest spelling at its place. -/
inductive Splits : List Char → List Char → List Item → Prop where
  | nil {before : List Char} : Splits before [] []
  | blanks {before run rest : List Char} {items : List Item} : run ≠ [] →
      run.all isBlank = true → rest.head?.any isBlank = false →
      Splits (before ++ run) rest items → Splits before (run ++ rest) items
  | token {before spelling rest : List Char} {lexeme : Lexeme} {items : List Item} :
      lexeme.SpelledBy spelling rest → ¬ BeginsFault (spelling ++ rest) →
      IsLongest spelling (spelling ++ rest) → Splits (before ++ spelling) rest items →
      Splits before (spelling ++ rest) (.ok ⟨lexeme, .behind before⟩ :: items)
  | fault {before spelling rest : List Char} {fault : ScanFault} {items : List Item} :
      fault.CausedBy spelling rest → Splits (before ++ spelling) rest items →
      Splits before (spelling ++ rest) (.error ⟨.behind before, fault⟩ :: items)

/-! ## What is spelled is read -/

theorem length_lt_takeWhile {α : Type} {p : α → Bool} {xs rest : List α} (h : xs.all p = true)
    (hrest : rest.head?.any p = true) : xs.length < ((xs ++ rest).takeWhile p).length := by
  cases rest with
  | nil => cases hrest
  | cons y ys =>
    have hy : p y = true := hrest
    rw [List.takeWhile_append_of_pos (List.all_eq_true.mp h), List.takeWhile_cons_of_pos hy,
      List.length_append, List.length_cons]
    omega

/-- A sign before an equals sign is part of a longer mark. -/
theorem Piece.next_longer_mark {m : Mark} {rest : List Char}
    (h : (Lexeme.mark m).endsBefore rest = false) (hassign : m = .assign → rest ≠ []) :
    ∃ c cs m', m.spelling.toList = c :: cs ∧ isBlank c = false ∧
      (c :: cs).length < (next c (cs ++ rest)).spelling.length ∧
      (next c (cs ++ rest)).content = .ok (.mark m') := by
  rcases rest with _ | ⟨d, ds⟩
  · cases m with
    | assign => exact absurd rfl (hassign rfl)
    | _ => cases h
  · cases m with
    | bang | less | greater | assign =>
      have hd : d = '=' := by simpa [Lexeme.endsBefore] using h
      subst hd
      exact ⟨_, [], _, rfl, rfl, Nat.lt_succ_self _, rfl⟩
    | _ => cases h

/-- Where a lexeme is spelled, it is read, or more than it. -/
theorem Lexeme.SpelledBy.next {l : Lexeme} {spelling rest : List Char}
    (h : l.SpelledBy spelling rest) :
    ∃ c cs, spelling = c :: cs ∧ isBlank c = false ∧
      (Piece.next c (cs ++ rest) = ⟨spelling, .ok l, rest⟩ ∨
        spelling.length < (Piece.next c (cs ++ rest)).spelling.length ∧
          (c.isDigit = false → ∃ l', (Piece.next c (cs ++ rest)).content = .ok l')) := by
  cases h with
  | identifier hs =>
    by_cases hrest : rest.head?.any isNamePart = true
    · obtain ⟨c, cs, hspell, hc, hcs⟩ := isName_iff.mp hs
      refine ⟨c, cs, hspell, isBlank_eq_false hc (by decide), .inr ⟨?_, fun _ => ?_⟩⟩
      · rw [hspell, Piece.next, if_pos hc]
        exact Nat.succ_lt_succ (length_lt_takeWhile hcs hrest)
      · exact ⟨_, by rw [Piece.next, if_pos hc]⟩
    · obtain ⟨c, cs, hspell, hblank, hread⟩ :=
        Piece.next_identifier hs (Bool.eq_false_iff.mpr hrest)
      exact ⟨c, cs, hspell, hblank, .inl (by rw [hread, hspell])⟩
  | integer hs | decimal hs =>
    by_cases hrest : rest.head?.any isNumberPart = true
    · obtain ⟨c, cs, hspell, hc, hcs, -⟩ := isNumber_iff.mp hs
      refine ⟨c, cs, hspell, isBlank_eq_false hc (by decide), .inr ⟨?_, fun hdigit => ?_⟩⟩
      · rw [hspell, Piece.next, if_neg (by rw [isNameStart_of_isDigit hc]; decide), if_pos hc]
        exact Nat.succ_lt_succ (length_lt_takeWhile hcs hrest)
      · rw [hc] at hdigit
        cases hdigit
    · obtain ⟨c, cs, hspell, hblank, hpoints, hread⟩ :=
        Piece.next_number hs (Bool.eq_false_iff.mpr hrest)
      refine ⟨c, cs, hspell, hblank, .inl ?_⟩
      rw [hread, numberLexeme, hpoints, String.ofList_toList, hspell]
      rfl
  | @string body value _ hbody =>
    refine ⟨'\'', body ++ ['\''], rfl, rfl, .inl ?_⟩
    rw [Piece.next, if_neg (by decide), if_neg (by decide), if_pos rfl, List.append_assoc,
      List.singleton_append, Piece.stringBody_quoted hbody rest]
    rfl
  | @mark m _ hm =>
    by_cases hend : (Lexeme.mark m).endsBefore rest = true
    · obtain ⟨c, cs, hspell, hblank, hread⟩ := Piece.next_mark hend
      exact ⟨c, cs, hspell, hblank, .inl (by rw [hread, hspell])⟩
    · obtain ⟨c, cs, m', hspell, hblank, hlength, hread⟩ :=
        Piece.next_longer_mark (Bool.eq_false_iff.mpr hend) fun hassign => absurd hassign hm
      exact ⟨c, cs, hspell, hblank, .inr ⟨hspell ▸ hlength, fun _ => ⟨_, hread⟩⟩⟩
  | assign hrest =>
    by_cases hend : (Lexeme.mark .assign).endsBefore rest = true
    · obtain ⟨c, cs, hspell, hblank, hread⟩ := Piece.next_mark hend
      exact ⟨c, cs, hspell, hblank, .inl (by rw [hread, ← hspell]; rfl)⟩
    · obtain ⟨c, cs, m', hspell, hblank, hlength, hread⟩ :=
        Piece.next_longer_mark (Bool.eq_false_iff.mpr hend) fun _ => hrest
      rw [← hspell] at hlength
      exact ⟨c, cs, hspell, hblank, .inr ⟨hlength, fun _ => ⟨_, hread⟩⟩⟩
  | lastEqual => exact ⟨'=', [], rfl, rfl, .inl rfl⟩

theorem Lexeme.SpelledBy.next_of_append {l : Lexeme} {c : Char} {spelling rest tail : List Char}
    (h : l.SpelledBy spelling rest) (happend : spelling ++ rest = c :: tail) :
    Piece.next c tail = ⟨spelling, .ok l, rest⟩ ∨
      spelling.length < (Piece.next c tail).spelling.length ∧
        (c.isDigit = false → ∃ l', (Piece.next c tail).content = .ok l') := by
  obtain ⟨c', cs, rfl, -, hread⟩ := h.next
  obtain ⟨rfl, rfl⟩ := List.cons.inj happend
  exact hread

/-- No spelling is longer than what is read. -/
theorem isLongest_next (c : Char) (rest : List Char) :
    IsLongest (Piece.next c rest).spelling (c :: rest) := by
  intro other longer behind hother happend
  rcases hother.next_of_append happend with hread | ⟨hlength, -⟩
  · rw [hread]
  · exact Nat.le_of_lt hlength

/-! ## What is read is spelled -/

/-- How the inside of a string ends: with a quote, or with the text. -/
inductive Piece.StringEnds : Piece (List Char) → Prop where
  | quote {body value rest : List Char} : Quoted body value →
      StringEnds ⟨body ++ ['\''], .ok value, rest⟩
  | text {body value : List Char} : Quoted body value →
      StringEnds ⟨body, .error .unterminatedString, []⟩
  | backslash {body value : List Char} : Quoted body value →
      StringEnds ⟨body ++ ['\\'], .error .unterminatedEscape, []⟩

theorem Piece.stringEnds (cs : List Char) : StringEnds (stringBody cs) := by
  fun_induction stringBody cs with
  | case1 => exact .text .nil
  | case2 rest => exact @StringEnds.quote [] [] rest .nil
  | case3 => exact .backslash .nil
  | case4 c rest tail ih =>
    have ih : StringEnds tail := ih
    clear_value tail
    cases ih with
    | quote h => exact .quote (.escaped h)
    | text h => exact .text (.escaped h)
    | backslash h => exact .backslash (.escaped h)
  | case5 c rest hquote hslash hescape tail ih =>
    -- a backslash that is no escape is the last character, and that is a case of its own
    have hplain : c ≠ '\\' := by
      rintro rfl
      cases rest with
      | nil => exact hslash rfl rfl
      | cons d ds => exact hescape d ds rfl rfl
    have ih : StringEnds tail := ih
    clear_value tail
    cases ih with
    | quote h => exact .quote (.plain hquote hplain h)
    | text h => exact .text (.plain hquote hplain h)
    | backslash h => exact .backslash (.plain hquote hplain h)

/-- At a piece that is neither a lexeme nor a number no lexeme is spelled. -/
theorem not_begins_of_next {c : Char} {rest : List Char} {fault : ScanFault}
    (hc : c.isDigit = false) (h : (Piece.next c rest).content = .error fault) :
    ¬ Begins (c :: rest) := by
  rintro ⟨l, spelling, rest', hspelled, happend⟩
  rcases hspelled.next_of_append happend with hread | ⟨-, hread⟩
  · rw [hread] at h
    cases h
  · obtain ⟨l', hl'⟩ := hread hc
    rw [hl'] at h
    cases h

namespace Piece

variable {c : Char} {rest : List Char}

theorem spelledBy_of_ofMark {l : Lexeme} (h : (ofMark c rest).content = .ok l) :
    l.SpelledBy (ofMark c rest).spelling (ofMark c rest).rest := by
  generalize hpiece : ofMark c rest = piece at h ⊢
  unfold ofMark at hpiece
  simp only at hpiece
  split at hpiece <;> subst hpiece <;> cases h
  -- the two readings of an equals sign
  case h_22 => exact .lastEqual
  case h_23 hne => exact .assign hne
  all_goals exact .mark (by decide)

/-- Where no mark is read, one character is at fault. -/
theorem ofMark_of_error {fault : ScanFault} (h : (ofMark c rest).content = .error fault) :
    ofMark c rest = one c rest (.error fault) ∧
      (fault = .unexpectedCharacter c ∧ c ≠ '&' ∧ c ≠ '|' ∨ fault = .halfMark .and ∧ c = '&' ∨
        fault = .halfMark .or ∧ c = '|') := by
  generalize hpiece : ofMark c rest = piece at h ⊢
  unfold ofMark at hpiece
  simp only at hpiece
  split at hpiece <;> subst hpiece <;> cases h
  case h_25 => exact ⟨rfl, .inr (.inl ⟨rfl, rfl⟩)⟩
  case h_27 => exact ⟨rfl, .inr (.inr ⟨rfl, rfl⟩)⟩
  case h_28 hand hor _ _ _ _ _ _ _ => exact ⟨rfl, .inl ⟨rfl, hand, hor⟩⟩

theorem causedBy_of_ofMark {fault : ScanFault} (hbegins : ¬ Begins (c :: rest))
    (hblank : isBlank c = false) (hquote : c ≠ '\'') (h : (ofMark c rest).content = .error fault) :
    fault.CausedBy (ofMark c rest).spelling (ofMark c rest).rest := by
  obtain ⟨hread, ⟨rfl, hand, hor⟩ | ⟨rfl, rfl⟩ | ⟨rfl, rfl⟩⟩ := ofMark_of_error h
  · rw [hread]
    exact .unexpectedCharacter hbegins hblank hquote hand hor
  · rw [hread]
    exact .halfAnd hbegins
  · rw [hread]
    exact .halfOr hbegins

theorem spelledBy_of_numberLexeme {cs rest : List Char} {l : Lexeme} (hc : c.isDigit = true)
    (hcs : cs.all isNumberPart = true) (h : numberLexeme (c :: cs) = .ok l) :
    l.SpelledBy (c :: cs) rest := by
  have hnumber {points : Nat} (hpoints : (c :: cs).count '.' = points) :
      isNumber points (String.ofList (c :: cs)) = true :=
    isNumber_iff.mpr ⟨c, cs, String.toList_ofList, hc, hcs, hpoints⟩
  rw [← String.toList_ofList (l := c :: cs)]
  unfold numberLexeme at h
  split at h
  · next hpoints =>
    cases h
    exact .integer (hnumber hpoints)
  · next hpoints =>
    cases h
    exact .decimal (hnumber hpoints)
  · cases h

theorem causedBy_of_numberLexeme {cs rest : List Char} {fault : ScanFault}
    (hc : c.isDigit = true) (hcs : cs.all isNumberPart = true)
    (hrest : rest.head?.any isNumberPart = false)
    (h : numberLexeme (c :: cs) = .error fault) : fault.CausedBy (c :: cs) rest := by
  unfold numberLexeme at h
  split at h
  · cases h
  · cases h
  · next hzero hone =>
    cases h
    have hnumber : isNumber ((c :: cs).count '.') (String.ofList (c :: cs)) = true :=
      isNumber_iff.mpr ⟨c, cs, String.toList_ofList, hc, hcs, rfl⟩
    have hpoints : 2 ≤ (c :: cs).count '.' := by
      have : (c :: cs).count '.' ≠ 0 := hzero
      have : (c :: cs).count '.' ≠ 1 := hone
      omega
    have hfault := ScanFault.CausedBy.malformedNumber hnumber hpoints hrest
    rwa [String.toList_ofList] at hfault

/-- A lexeme that is read is spelled by what was read. -/
theorem spelledBy_of_next {l : Lexeme} (h : (next c rest).content = .ok l) :
    l.SpelledBy (next c rest).spelling (next c rest).rest := by
  by_cases hname : isNameStart c = true
  · rw [next, if_pos hname] at h ⊢
    cases h
    have hspelled (tail behind : List Char) (htail : tail.all isNamePart = true) :
        (Lexeme.identifier (String.ofList (c :: tail))).SpelledBy (c :: tail) behind := by
      have hlexeme : isName (String.ofList (c :: tail)) = true :=
        isName_iff.mpr ⟨c, tail, String.toList_ofList, hname, htail⟩
      have hspelled : (Lexeme.identifier (String.ofList (c :: tail))).SpelledBy _ behind :=
        .identifier hlexeme
      rwa [String.toList_ofList] at hspelled
    exact hspelled _ _ List.all_takeWhile
  · by_cases hdigit : c.isDigit = true
    · rw [next, if_neg hname, if_pos hdigit] at h ⊢
      exact spelledBy_of_numberLexeme hdigit List.all_takeWhile h
    · by_cases hquote : c = '\''
      · rw [next, if_neg hname, if_neg hdigit, if_pos hquote] at h ⊢
        subst hquote
        have hends := stringEnds rest
        generalize stringBody rest = body at h hends ⊢
        cases hends with
        | quote hbody =>
          cases h
          exact .string hbody
        | text | backslash => cases h
      · rw [next, if_neg hname, if_neg hdigit, if_neg hquote] at h ⊢
        exact spelledBy_of_ofMark h

theorem head_dropWhile {α : Type} (p : α → Bool) (xs : List α) :
    (xs.dropWhile p).head?.any p = false := by
  have h := List.head?_dropWhile_not p xs
  cases hhead : (xs.dropWhile p).head? with
  | none => rfl
  | some x =>
    rw [hhead] at h
    exact h

/-- A fault that is found is caused by what was read. -/
theorem causedBy_of_next {fault : ScanFault} (hblank : isBlank c = false)
    (h : (next c rest).content = .error fault) :
    fault.CausedBy (next c rest).spelling (next c rest).rest := by
  by_cases hname : isNameStart c = true
  · rw [next, if_pos hname] at h
    cases h
  · by_cases hdigit : c.isDigit = true
    · rw [next, if_neg hname, if_pos hdigit] at h ⊢
      exact causedBy_of_numberLexeme hdigit List.all_takeWhile (head_dropWhile _ _) h
    · have hbegins := not_begins_of_next (Bool.eq_false_iff.mpr hdigit) h
      by_cases hquote : c = '\''
      · rw [next, if_neg hname, if_neg hdigit, if_pos hquote] at h ⊢
        subst hquote
        have hends := stringEnds rest
        generalize stringBody rest = body at h hends ⊢
        cases hends with
        | quote => cases h
        | text hbody =>
          cases h
          exact .unterminatedString hbody
        | backslash hbody =>
          cases h
          exact .unterminatedEscape hbody
      · rw [next, if_neg hname, if_neg hdigit, if_neg hquote] at h ⊢
        exact causedBy_of_ofMark hbegins hblank hquote h

/-! ## What is at fault is found -/

theorem begins_of_isDigit (hc : c.isDigit = true) (rest : List Char) : Begins (c :: rest) := by
  have hne : c ≠ '.' := by
    rintro rfl
    exact absurd hc (by decide)
  have hread : numberLexeme [c] = .ok (.integer (String.ofList [c])) := by
    rw [numberLexeme, List.count_eq_zero.mpr (by simpa [eq_comm] using hne)]
    rfl
  exact ⟨_, [c], rest, spelledBy_of_numberLexeme hc rfl hread, rfl⟩

/-- Where no lexeme is spelled and no string is left open, one character is at fault. -/
theorem next_of_not_begins (hbegins : ¬ Begins (c :: rest)) (hquote : c ≠ '\'') :
    ∃ fault, next c rest = one c rest (.error fault) ∧
      (fault = .unexpectedCharacter c ∧ c ≠ '&' ∧ c ≠ '|' ∨ fault = .halfMark .and ∧ c = '&' ∨
        fault = .halfMark .or ∧ c = '|') := by
  cases hcontent : (next c rest).content with
  | ok l => exact absurd ⟨l, _, _, spelledBy_of_next hcontent, next_append c rest⟩ hbegins
  | error fault =>
    have hdigit : c.isDigit = false :=
      Bool.eq_false_iff.mpr fun hc => hbegins (begins_of_isDigit hc rest)
    have hname : isNameStart c = false := by
      refine Bool.eq_false_iff.mpr fun hname => ?_
      rw [next, if_pos hname] at hcontent
      cases hcontent
    rw [next_eq_ofMark ⟨hname, hdigit, hquote⟩] at hcontent ⊢
    exact ⟨fault, ofMark_of_error hcontent⟩

end Piece

theorem numberLexeme_of_two_le {run : List Char} (h : 2 ≤ run.count '.') :
    numberLexeme run = .error (.malformedNumber (String.ofList run)) := by
  unfold numberLexeme
  split
  · omega
  · omega
  · rfl

/-- What causes a fault is read as this fault. -/
theorem ScanFault.CausedBy.next {fault : ScanFault} {spelling rest : List Char}
    (h : fault.CausedBy spelling rest) :
    ∃ c cs, spelling = c :: cs ∧ isBlank c = false ∧
      Piece.next c (cs ++ rest) = ⟨spelling, .error fault, rest⟩ := by
  cases h with
  | unexpectedCharacter hbegins hblank hquote hand hor =>
    obtain ⟨_, hread, ⟨rfl, -, -⟩ | ⟨-, hc⟩ | ⟨-, hc⟩⟩ := Piece.next_of_not_begins hbegins hquote
    · exact ⟨_, [], rfl, hblank, hread⟩
    · exact absurd hc hand
    · exact absurd hc hor
  | halfAnd hbegins =>
    obtain ⟨_, hread, ⟨-, hand, -⟩ | ⟨rfl, -⟩ | ⟨-, hc⟩⟩ :=
      Piece.next_of_not_begins hbegins (by decide)
    · exact absurd rfl hand
    · exact ⟨'&', [], rfl, rfl, hread⟩
    · exact absurd hc (by decide)
  | halfOr hbegins =>
    obtain ⟨_, hread, ⟨-, -, hor⟩ | ⟨-, hc⟩ | ⟨rfl, -⟩⟩ :=
      Piece.next_of_not_begins hbegins (by decide)
    · exact absurd rfl hor
    · exact absurd hc (by decide)
    · exact ⟨'|', [], rfl, rfl, hread⟩
  | malformedNumber hs hpoints hrest =>
    obtain ⟨c, cs, hspell, hblank, hcount, hread⟩ := Piece.next_number hs hrest
    refine ⟨c, cs, hspell, hblank, ?_⟩
    rw [hread, numberLexeme_of_two_le (hcount ▸ hpoints), String.ofList_toList, hspell]
  | @unterminatedString body _ hbody =>
    refine ⟨'\'', body, rfl, rfl, ?_⟩
    rw [Piece.next, if_neg (by decide), if_neg (by decide), if_pos rfl,
      Piece.stringBody_of_quoted hbody]
    simp [Piece.stringBody, Except.map]
  | @unterminatedEscape body _ hbody =>
    refine ⟨'\'', body ++ ['\\'], rfl, rfl, ?_⟩
    rw [Piece.next, if_neg (by decide), if_neg (by decide), if_pos rfl, List.append_nil,
      Piece.stringBody_of_quoted hbody]
    simp [Piece.stringBody, Piece.one, Except.map]

theorem not_beginsFault_of_next {c : Char} {rest : List Char} {l : Lexeme}
    (h : (Piece.next c rest).content = .ok l) : ¬ BeginsFault (c :: rest) := by
  rintro ⟨fault, spelling, rest', hcaused, happend⟩
  obtain ⟨c', cs, rfl, -, hread⟩ := hcaused.next
  obtain ⟨rfl, rfl⟩ := List.cons.inj happend
  have hboth := h.symm.trans (congrArg Piece.content hread)
  cases hboth

/-- A lexeme is read where no fault stands and no spelling is longer. -/
theorem Lexeme.SpelledBy.next_eq {l : Lexeme} {spelling rest : List Char}
    (h : l.SpelledBy spelling rest) (hfault : ¬ BeginsFault (spelling ++ rest))
    (hlongest : IsLongest spelling (spelling ++ rest)) :
    ∃ c cs, spelling = c :: cs ∧ isBlank c = false ∧
      Piece.next c (cs ++ rest) = ⟨spelling, .ok l, rest⟩ := by
  obtain ⟨c, cs, rfl, hblank, hread | ⟨hlonger, -⟩⟩ := h.next
  · exact ⟨c, cs, rfl, hblank, hread⟩
  · have happend := Piece.next_append c (cs ++ rest)
    cases hcontent : (Piece.next c (cs ++ rest)).content with
    | ok l' =>
      have hle := hlongest l' _ _ (Piece.spelledBy_of_next hcontent) happend
      omega
    | error fault =>
      exact absurd ⟨fault, _, _, Piece.causedBy_of_next hblank hcontent, happend⟩ hfault

/-! ## The whole text -/

namespace Scan

theorem fromPosition_blanks {run : List Char} (h : run.all isBlank = true)
    (before rest : List Char) :
    fromPosition (.behind before) (run ++ rest) = fromPosition (.behind (before ++ run)) rest := by
  induction run generalizing before with
  | nil => rw [List.nil_append, List.append_nil]
  | cons c run ih =>
    obtain ⟨hc, hrun⟩ := (Bool.and_eq_true _ _).mp h
    rw [List.cons_append, fromPosition, if_pos hc, ← Position.behind_snoc, ih hrun,
      List.append_assoc, List.singleton_append]

theorem fromPosition_piece {c : Char} (hc : isBlank c = false) (before cs : List Char) :
    fromPosition (.behind before) (c :: cs) =
      (let piece := Piece.next c cs
       let tail := fromPosition (.behind (before ++ piece.spelling)) piece.rest
       ⟨((Position.behind before).report piece.content).map (⟨·, .behind before⟩) :: tail.items,
        tail.stop⟩) := by
  rw [fromPosition, if_neg (by rw [hc]; decide)]
  simp only [Position.advance_behind]

/-- The text falls apart into the piece that is read and what the text behind it falls apart into. -/
theorem splits_piece {c : Char} {before rest : List Char} {items : List Item}
    (hblank : isBlank c = false)
    (h : Splits (before ++ (Piece.next c rest).spelling) (Piece.next c rest).rest items) :
    Splits before (c :: rest)
      (((Position.behind before).report (Piece.next c rest).content).map (⟨·, .behind before⟩) ::
        items) := by
  have happend := Piece.next_append c rest
  cases hcontent : (Piece.next c rest).content with
  | ok l =>
    have htoken := Splits.token (Piece.spelledBy_of_next hcontent)
      (happend.symm ▸ not_beginsFault_of_next hcontent) (happend.symm ▸ isLongest_next c rest) h
    rw [happend] at htoken
    exact htoken
  | error fault =>
    have hfault := Splits.fault (Piece.causedBy_of_next hblank hcontent) h
    rw [happend] at hfault
    exact hfault

/-- Behind `before` the text falls apart as scanning finds it. -/
theorem splits_fromPosition (before cs : List Char) :
    Splits before cs (fromPosition (.behind before) cs).items := by
  -- blanks are scanned one by one and make one run, so the induction is on the length of the text
  induction hlength : cs.length using Nat.strong_induction_on generalizing before cs with
  | _ length ih =>
    cases cs with
    | nil => simpa [fromPosition] using Splits.nil
    | cons c rest =>
      subst hlength
      by_cases hblank : isBlank c = true
      · have hrun : (c :: rest.takeWhile isBlank).all isBlank = true := by
          rw [List.all_cons, hblank, Bool.true_and]
          exact List.all_takeWhile
        have hsplit : c :: rest = (c :: rest.takeWhile isBlank) ++ rest.dropWhile isBlank := by
          rw [List.cons_append, List.takeWhile_append_dropWhile]
        have hshorter : (rest.dropWhile isBlank).length < (c :: rest).length :=
          Nat.lt_succ_of_le (List.dropWhile_sublist _).length_le
        have hitems :=
          ih _ hshorter (before ++ (c :: rest.takeWhile isBlank)) (rest.dropWhile isBlank) rfl
        rw [hsplit, fromPosition_blanks hrun]
        exact .blanks (List.cons_ne_nil _ _) hrun (Piece.head_dropWhile _ _) hitems
      · have hblank : isBlank c = false := Bool.eq_false_iff.mpr hblank
        have hshorter : (Piece.next c rest).rest.length < (c :: rest).length :=
          Nat.lt_succ_of_le (Piece.length_next_rest c rest)
        rw [fromPosition_piece hblank]
        exact splits_piece hblank (ih _ hshorter _ _ rfl)

/-- There is no other way for it to fall apart. -/
theorem items_of_splits {before cs : List Char} {items : List Item} (h : Splits before cs items) :
    items = (fromPosition (.behind before) cs).items := by
  induction h with
  | nil => simp [fromPosition]
  | blanks _ hrun _ _ ih => rw [fromPosition_blanks hrun, ih]
  | token hspelled hfault hlongest _ ih =>
    obtain ⟨c, cs, rfl, hblank, hread⟩ := hspelled.next_eq hfault hlongest
    rw [List.cons_append, fromPosition_piece hblank, ih]
    simp only [hread]
    rfl
  | fault hcaused _ ih =>
    obtain ⟨c, cs, rfl, hblank, hread⟩ := hcaused.next
    rw [List.cons_append, fromPosition_piece hblank, ih]
    simp only [hread]
    rfl

theorem peek_iterate_advance (s : Scan) (n : Nat) :
    (advance^[n] s).peek = (s.items[n]?).getD (.ok ⟨.endOfInput, s.stop⟩) := by
  induction n generalizing s with
  | zero =>
    obtain ⟨items, stop⟩ := s
    cases items <;> rfl
  | succ n ih =>
    obtain ⟨items, stop⟩ := s
    rw [Function.iterate_succ_apply, ih]
    cases items with
    | nil => rfl
    | cons item items => rfl

theorem splits_items_ofText (text : String) : Splits [] text.toList (ofText text).items := by
  rw [ofText_eq]
  exact splits_fromPosition [] text.toList

theorem stop_ofText (text : String) : (ofText text).stop = .behind text.toList := by
  rw [ofText_eq]
  exact stop_fromPosition [] text.toList

/-- **Scanning divides the text.** A text falls apart into blanks, lexemes and faults in one way.
Scanning gives the lexemes and the faults in their order, one each time that it is asked, with the
places of their first characters, and from then on the end of input. -/
theorem splits_ofText (text : String) :
    (∀ items, Splits [] text.toList items ↔ items = (ofText text).items) ∧
      ∀ n, (advance^[n] (ofText text)).peek =
        ((ofText text).items[n]?).getD (.ok ⟨.endOfInput, .behind text.toList⟩) := by
  refine ⟨fun items => ⟨fun h => ?_, ?_⟩, fun n => ?_⟩
  · rw [ofText_eq]
    exact items_of_splits h
  · rintro rfl
    exact splits_items_ofText text
  · rw [peek_iterate_advance, stop_ofText]

end Scan

end ComputedField
