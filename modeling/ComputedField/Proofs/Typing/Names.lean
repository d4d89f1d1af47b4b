import ComputedField.Ty
import Mathlib

/-!
# Names of types

A type is a scalar with a number of dimensions (`Ty.ofDimensions`). `Ty.Spells` says which texts
name it: a spelling of the scalar, in letters of any case, and a pair of brackets for each
dimension, with white space before it or without. Reading takes these texts and no others, whatever
white space stands around them (`Text.Trims`), and reads the name of a type as the type
(`ofName_exact`). Dimensions are counted without a bound, as in names with fewer than `2 ^ 32` pairs
of brackets.
-/

set_option autoImplicit false

namespace ComputedField

/-! ## White space at the ends -/

namespace Text

/-- No white space at the end of `cs`. -/
def EndsSolid (cs : List Char) : Prop := ∀ c ∈ cs.getLast?, isWhite c = false

/-- No white space at the beginning of `cs`. -/
def BeginsSolid (cs : List Char) : Prop := ∀ c ∈ cs.head?, isWhite c = false

/-- `word` is what is left of `cs` without the white space at both ends. -/
structure Trims (cs word : List Char) : Prop where
  around : ∃ front back, cs = front ++ word ++ back ∧ (∀ c ∈ front, isWhite c = true) ∧
    ∀ c ∈ back, isWhite c = true
  beginsSolid : BeginsSolid word
  endsSolid : EndsSolid word

variable {cs white : List Char}

theorem dropWhile_of_beginsSolid (h : BeginsSolid cs) : cs.dropWhile isWhite = cs := by
  cases cs with
  | nil => rfl
  | cons c cs => exact List.dropWhile_cons_of_neg (by simp [h c rfl])

theorem beginsSolid_dropWhile (cs : List Char) : BeginsSolid (cs.dropWhile isWhite) := by
  intro c hc
  have hnot := List.head?_dropWhile_not isWhite cs
  rw [hc] at hnot
  exact hnot

theorem endsSolid_iff : EndsSolid cs ↔ BeginsSolid cs.reverse := by
  rw [EndsSolid, BeginsSolid, List.head?_reverse]

/-- White space at the end goes, if something else stands before it. -/
theorem trimEnd_append (h : EndsSolid cs) (hwhite : ∀ c ∈ white, isWhite c = true) :
    trimEnd (cs ++ white) = cs := by
  have hrest : ∀ c ∈ white.reverse, isWhite c = true := fun c hc =>
    hwhite c (List.mem_reverse.mp hc)
  rw [trimEnd, List.reverse_append, List.dropWhile_append_of_pos hrest,
    dropWhile_of_beginsSolid (endsSolid_iff.mp h), List.reverse_reverse]

theorem trim_of_solid (hbegin : BeginsSolid cs) (hend : EndsSolid cs) : trim cs = cs := by
  have hnothing : trimEnd (cs ++ []) = cs := trimEnd_append hend (by simp)
  rw [trim, dropWhile_of_beginsSolid hbegin]
  rwa [List.append_nil] at hnothing

theorem endsSolid_trimEnd (cs : List Char) : EndsSolid (trimEnd cs) := by
  rw [endsSolid_iff, trimEnd, List.reverse_reverse]
  exact beginsSolid_dropWhile _

theorem exists_trimEnd_append (cs : List Char) :
    ∃ white, cs = trimEnd cs ++ white ∧ ∀ c ∈ white, isWhite c = true :=
  ⟨cs.rtakeWhile isWhite, List.rdropWhile_append_rtakeWhile.symm, fun _ => List.mem_rtakeWhile_imp⟩

theorem dropSuffix?_append (front suffix : List Char) :
    dropSuffix? suffix (front ++ suffix) = some front := by
  simp [dropSuffix?]

theorem trims_trim (cs : List Char) : Trims cs (trim cs) := by
  obtain ⟨back, hback, hwhite⟩ := exists_trimEnd_append (cs.dropWhile isWhite)
  refine ⟨⟨cs.takeWhile isWhite, back, ?_, fun c hc => List.mem_takeWhile_imp hc, hwhite⟩, ?_,
    endsSolid_trimEnd _⟩
  · rw [trim, List.append_assoc, ← hback, List.takeWhile_append_dropWhile]
  · -- what is trimmed at the end still begins as before, or is empty
    intro c hc
    have hbegin := beginsSolid_dropWhile cs
    rw [hback] at hbegin
    exact hbegin c (List.mem_head?_append_of_mem_head? hc)

end Text

/-! ## Names of scalars -/

theorem isAlpha_of_isLower_toLower {c : Char} (h : c.toLower.isLower = true) :
    c.isAlpha = true := by
  by_cases hupper : c.isUpper = true
  · rw [Char.isAlpha, hupper, Bool.true_or]
  · have hsame : c.toLower = c := dif_neg (by simpa [Char.isUpper] using hupper)
    rw [hsame] at h
    rw [Char.isAlpha, h, Bool.or_true]

theorem isWhite_of_isAlpha {c : Char} (h : c.isAlpha = true) : Text.isWhite c = false := by
  have hrange : 65 ≤ c.toNat ∧ c.toNat ≤ 90 ∨ 97 ≤ c.toNat ∧ c.toNat ≤ 122 := by
    simpa [Char.isAlpha, Char.isUpper, Char.isLower, UInt32.le_iff_toNat_le] using h
  simp only [Text.isWhite, Bool.or_eq_false_iff, Bool.and_eq_false_iff, decide_eq_false_iff_not,
    beq_eq_false_iff_ne]
  omega

namespace Scalar

/-- A spelling of the scalar, in letters of any case. -/
def SpelledBy (s : Scalar) (cs : List Char) : Prop :=
  ∃ word, (word, s) ∈ spellings ∧ cs.map Char.toLower = word.toList

variable {s : Scalar} {cs : List Char}

/-- No spelling stands for two scalars. -/
theorem lookup_spellings : ∀ p ∈ spellings, spellings.lookup p.1 = some p.2 := by
  decide

theorem letters_of_spellings :
    ∀ p ∈ spellings, p.1.toList ≠ [] ∧ ∀ c ∈ p.1.toList, c.isLower = true := by
  simp [spellings]

theorem ofName?_eq_some_iff : ofName? cs = some s ↔ s.SpelledBy cs := by
  constructor
  · intro h
    obtain ⟨before, after, htable, -⟩ := List.lookup_eq_some_iff.mp h
    refine ⟨_, ?_, String.ofList_eq.mp rfl⟩
    rw [htable]
    simp
  · rintro ⟨word, hmem, hword⟩
    rw [ofName?, String.ofList_eq.mpr hword]
    exact lookup_spellings _ hmem

theorem spelledBy_name (s : Scalar) : s.SpelledBy s.name.toList := by
  refine ⟨s.name, ?_, ?_⟩ <;> cases s <;> decide

/-- Spellings are of letters only. -/
theorem SpelledBy.isAlpha (h : s.SpelledBy cs) : cs ≠ [] ∧ ∀ c ∈ cs, c.isAlpha = true := by
  obtain ⟨word, hmem, hword⟩ := h
  obtain ⟨hne, hlower⟩ := letters_of_spellings _ hmem
  rw [← hword] at hne hlower
  refine ⟨fun h => hne (by rw [h]; rfl), fun c hc => ?_⟩
  exact isAlpha_of_isLower_toLower (hlower _ (List.mem_map_of_mem hc))

end Scalar

/-! ## Types by their dimensions -/

namespace Ty

/-- The type with `n` dimensions over a scalar; without any it is the scalar. -/
def ofDimensions (s : Scalar) (n : ℕ) : Ty := if n = 0 then scalar s else array s n

variable (s : Scalar) (n : ℕ)

@[simp] theorem ofDimensions_zero : ofDimensions s 0 = scalar s := rfl

@[simp] theorem ofDimensions_succ : ofDimensions s (n + 1) = array s (n + 1) := rfl

/-- Indexing takes one dimension away. -/
theorem element?_ofDimensions : (ofDimensions s (n + 1)).element? = some (ofDimensions s n) := by
  cases n with
  | zero => rfl
  | succ n => simp [element?]

/-- Indexing once for each dimension comes to the scalar. -/
theorem iterate_element? :
    (fun t : Option Ty => t.bind element?)^[n] (some (ofDimensions s n)) = some (scalar s) := by
  induction n with
  | zero => rfl
  | succ n ih => rw [Function.iterate_succ_apply, Option.bind_some, element?_ofDimensions, ih]

/-- An array of arrays has the dimensions of both. -/
theorem arrayOf_ofDimensions (m : ℕ) :
    (ofDimensions s n).arrayOf (m + 1) = ofDimensions s (n + (m + 1)) := by
  cases n with
  | zero => rw [Nat.zero_add]; rfl
  | succ n => rfl

theorem toList_name_ofDimensions :
    (ofDimensions s n).name.toList = s.name.toList ++ (List.replicate n ['[', ']']).flatten := by
  cases n with
  | zero => simp [name]
  | succ n => simp [name]

/-! ## Texts that name a type -/

/-- The text names the scalar under a number of dimensions: a spelling of the scalar, and for each
dimension a pair of brackets, which white space may stand before. -/
inductive Spells : List Char → Scalar → ℕ → Prop where
  | scalar {cs : List Char} {s : Scalar} : s.SpelledBy cs → Spells cs s 0
  | array {cs white : List Char} {s : Scalar} {n : ℕ} : Spells cs s n →
      (∀ c ∈ white, Text.isWhite c = true) → Spells (cs ++ white ++ ['[', ']']) s (n + 1)

theorem spells_name : Spells (ofDimensions s n).name.toList s n := by
  rw [toList_name_ofDimensions]
  induction n with
  | zero => exact .scalar (by simpa using s.spelledBy_name)
  | succ n ih =>
    have hnext := ih.array (List.forall_mem_nil _)
    rw [List.append_nil, List.append_assoc] at hnext
    rwa [List.replicate_succ', List.flatten_append, List.flatten_singleton]

variable {s n} {cs : List Char}

theorem Spells.endsSolid (h : Spells cs s n) : Text.EndsSolid cs := by
  cases h with
  | scalar h =>
    intro c hc
    exact isWhite_of_isAlpha (h.isAlpha.2 c (List.mem_of_getLast? hc))
  | array => simp [Text.EndsSolid, Text.isWhite]

theorem Spells.beginsSolid (h : Spells cs s n) : cs ≠ [] ∧ Text.BeginsSolid cs := by
  induction h with
  | scalar h =>
    refine ⟨h.isAlpha.1, fun c hc => ?_⟩
    exact isWhite_of_isAlpha (h.isAlpha.2 c (List.mem_of_mem_head? hc))
  | array _ _ ih =>
    obtain ⟨c, rest, rfl⟩ := List.exists_cons_of_ne_nil ih.1
    exact ⟨by simp, ih.2⟩

/-! ## Reading -/

theorem splitBrackets_of_not_suffix (h : Text.dropSuffix? ['[', ']'] cs = none) :
    splitBrackets cs = (cs, 0) := by
  rw [splitBrackets]
  split
  · rfl
  · next hfront =>
    rw [h] at hfront
    cases hfront

theorem splitBrackets_append (front : List Char) :
    splitBrackets (front ++ ['[', ']']) =
      ((splitBrackets (Text.trimEnd front)).1, (splitBrackets (Text.trimEnd front)).2 + 1) := by
  rw [splitBrackets]
  split
  · next h =>
    rw [Text.dropSuffix?_append] at h
    cases h
  · next h =>
    rw [Text.dropSuffix?_append] at h
    cases h
    rfl

/-- Brackets are taken off the end of a text that names a type, down to the spelling. -/
theorem Spells.splitBrackets_eq (h : Spells cs s n) :
    ∃ base, splitBrackets cs = (base, n) ∧ s.SpelledBy base := by
  induction h with
  | @scalar cs s h =>
    refine ⟨cs, splitBrackets_of_not_suffix ?_, h⟩
    cases hdrop : Text.dropSuffix? ['[', ']'] cs with
    | none => rfl
    | some front =>
      have hbracket : ']' ∈ cs := by
        rw [← Text.append_of_dropSuffix? hdrop]
        simp
      exact absurd (h.isAlpha.2 _ hbracket) (by decide)
  | array h hwhite ih =>
    obtain ⟨base, hsplit, hbase⟩ := ih
    refine ⟨base, ?_, hbase⟩
    rw [splitBrackets_append, Text.trimEnd_append h.endsSolid hwhite, hsplit]

/-- What is taken off were brackets, and what is left says what the text names. -/
theorem spells_of_splitBrackets (h : s.SpelledBy (splitBrackets cs).1) :
    Spells cs s (splitBrackets cs).2 := by
  fun_induction splitBrackets cs with
  | case1 cs hdrop => exact .scalar h
  | case2 cs front hdrop base depth hsplit ih =>
    rw [hsplit] at ih
    obtain ⟨white, hfront, hwhite⟩ := Text.exists_trimEnd_append front
    rw [← Text.append_of_dropSuffix? hdrop, hfront]
    exact (ih h).array hwhite

variable {text : String}

theorem ofName_eq (text : String) :
    ofName text = match Scalar.ofName? (splitBrackets (Text.trim text.toList)).1 with
      | none => .error ⟨String.ofList (Text.trim text.toList)⟩
      | some s => .ok (ofDimensions s (splitBrackets (Text.trim text.toList)).2) :=
  rfl

theorem ofName_eq_ok_iff {t : Ty} : ofName text = .ok t ↔
    ∃ s n, Spells (Text.trim text.toList) s n ∧ t = ofDimensions s n := by
  constructor
  · intro h
    rw [ofName_eq] at h
    cases hs : Scalar.ofName? (splitBrackets (Text.trim text.toList)).1 with
    | none =>
      rw [hs] at h
      cases h
    | some s =>
      rw [hs] at h
      cases h
      exact ⟨s, _, spells_of_splitBrackets (Scalar.ofName?_eq_some_iff.mp hs), rfl⟩
  · rintro ⟨s, n, hspells, rfl⟩
    obtain ⟨base, hsplit, hbase⟩ := hspells.splitBrackets_eq
    rw [ofName_eq, hsplit, Scalar.ofName?_eq_some_iff.mpr hbase]

/-- An error has the trimmed text. -/
theorem eq_of_ofName_eq_error {e : UnknownName} (h : ofName text = .error e) :
    e = ⟨String.ofList (Text.trim text.toList)⟩ := by
  rw [ofName_eq] at h
  split at h <;> cases h
  rfl

theorem ofName_eq_error_iff {e : UnknownName} : ofName text = .error e ↔
    (∀ s n, ¬ Spells (Text.trim text.toList) s n) ∧
      e = ⟨String.ofList (Text.trim text.toList)⟩ := by
  constructor
  · intro h
    refine ⟨fun s n hspells => ?_, eq_of_ofName_eq_error h⟩
    rw [ofName_eq_ok_iff.mpr ⟨s, n, hspells, rfl⟩] at h
    cases h
  · rintro ⟨hnone, rfl⟩
    cases h : ofName text with
    | ok t =>
      obtain ⟨s, n, hspells, -⟩ := ofName_eq_ok_iff.mp h
      exact absurd hspells (hnone s n)
    | error e => rw [eq_of_ofName_eq_error h]

theorem ofName_name (s : Scalar) (n : ℕ) :
    ofName (ofDimensions s n).name = .ok (ofDimensions s n) := by
  have hspells := spells_name s n
  refine ofName_eq_ok_iff.mpr ⟨s, n, ?_, rfl⟩
  rwa [Text.trim_of_solid hspells.beginsSolid.2 hspells.endsSolid]

/-- **Type names are read exactly, and go round.** A scalar with any number of dimensions is read
back from its name; indexing once for each dimension comes to the scalar, and an array of it has the
dimensions of both. A text is read as a type if and only if, trimmed of white space, it spells the
scalar of that type, followed by its brackets; every other text is an error with the trimmed
text. -/
theorem ofName_exact (text : String) :
    (∀ (s : Scalar) (n : ℕ), ofName (ofDimensions s n).name = .ok (ofDimensions s n) ∧
      (fun t : Option Ty => t.bind element?)^[n] (some (ofDimensions s n)) = some (scalar s) ∧
      ∀ m, (ofDimensions s n).arrayOf (m + 1) = ofDimensions s (n + (m + 1))) ∧
    ∃ word, Text.Trims text.toList word ∧
      (∀ t, ofName text = .ok t ↔ ∃ s n, Spells word s n ∧ t = ofDimensions s n) ∧
      ∀ e, ofName text = .error e ↔ (∀ s n, ¬ Spells word s n) ∧ e = ⟨String.ofList word⟩ := by
  refine ⟨fun s n => ⟨ofName_name s n, iterate_element? s n, arrayOf_ofDimensions s n⟩, ?_⟩
  exact ⟨Text.trim text.toList, Text.trims_trim _, fun t => ofName_eq_ok_iff,
    fun e => ofName_eq_error_iff⟩

/-- Letters of any case, an alias, and white space where it does not count. -/
example : ofName " NumBer []\t[] " = .ok (.array .decimal 2) := by cbv

end Ty

end ComputedField
