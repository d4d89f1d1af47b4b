import ComputedField.Proofs.Expr.Written
import ComputedField.Proofs.Typing.Nodes
import ComputedField.Proofs.Value.Operators

/-!
# Forgotten types

A null is written without the type that it is noted with. Where the rules meet such a null again,
they may know less than before: `Ty.Forgets known left`. What they accepted they accept again, and
of the type that they found they find what is left. A power is an exception: it is an integer only
if both operands are known to be, so that less knowledge makes it a decimal.
-/

set_option autoImplicit false

namespace ComputedField

namespace Ty

/-- `left` is what is left of the type `known` where types have been forgotten: the same, none, or
integer if the decimal beside an integer was forgotten. -/
def Forgets (known left : Option Ty) : Prop :=
  left = known ∨ left = none ∨ (known = some .decimal ∧ left = some .integer)

theorem Forgets.refl (t : Option Ty) : Forgets t t := .inl rfl

variable {t u l l' r r' note : Option Ty}

theorem Forgets.eq_none (h : Forgets t u) (ht : t = none) : u = none := by
  rcases h with rfl | rfl | ⟨rfl, -⟩
  · exact ht
  · rfl
  · cases ht

theorem Forgets.eq_decimal (h : Forgets t u) (hu : u = some .decimal) : t = some .decimal := by
  rcases h with rfl | rfl | ⟨rfl, -⟩
  · exact hu
  · cases hu
  · rfl

theorem Forgets.of_notedAs (h : Forgets t u) (hnote : NotedAs t note) : Forgets note u := by
  rcases hnote with rfl | rfl
  · exact .inr (.inl (h.eq_none rfl))
  · exact h

/-! ## Operands -/

theorem Forgets.knownIs {p : Ty → Bool} (h : Forgets t u) (hp : p .decimal = true → p .integer = true)
    (ht : knownIs p t = true) : knownIs p u = true := by
  rcases h with rfl | rfl | ⟨rfl, rfl⟩
  · exact ht
  · rfl
  · exact hp ht

theorem Forgets.bothNumeric (hl : Forgets l l') (hr : Forgets r r')
    (h : bothNumeric l r = true) : bothNumeric l' r' = true := by
  obtain ⟨hln, hrn⟩ := (Bool.and_eq_true _ _).mp h
  exact (Bool.and_eq_true _ _).mpr
    ⟨hl.knownIs (fun _ => rfl) hln, hr.knownIs (fun _ => rfl) hrn⟩

theorem Forgets.booleanOrUnknown (h : Forgets t u) (ht : booleanOrUnknown t = true) :
    booleanOrUnknown u = true :=
  h.knownIs (fun h => absurd h (by decide)) ht

theorem Forgets.map_widened (h : Forgets t u) :
    u.map widened = t.map widened ∨ u.map widened = none := by
  rcases h with rfl | rfl | ⟨rfl, rfl⟩
  · exact .inl rfl
  · exact .inr rfl
  · exact .inl rfl

theorem Forgets.comparable {equality : Bool} (hl : Forgets l l') (hr : Forgets r r')
    (h : comparable equality l r = true) : comparable equality l' r' = true := by
  simp only [Ty.comparable, Bool.and_eq_true] at h ⊢
  obtain ⟨⟨hlc, hrc⟩, hsame⟩ := h
  rcases hl.map_widened with hl | hl <;> rcases hr.map_widened with hr | hr <;> rw [hl, hr]
  · exact ⟨⟨hlc, hrc⟩, hsame⟩
  · exact ⟨⟨hlc, rfl⟩, by simp⟩
  · exact ⟨⟨rfl, hrc⟩, by simp⟩
  · exact ⟨⟨rfl, rfl⟩, by simp⟩

/-- Of two strings one may still be known. -/
theorem Forgets.joinsStrings (hl : Forgets l l') (hr : Forgets r r')
    (h : joinsStrings l r = true) : joinsStrings l' r' = true ∨ l' = none ∧ r' = none := by
  obtain ⟨hstrings, -⟩ := (Bool.and_eq_true _ _).mp h
  obtain ⟨hls, hrs⟩ := (Bool.and_eq_true _ _).mp hstrings
  have hls := hl.knownIs (fun h => absurd h (by decide)) hls
  have hrs := hr.knownIs (fun h => absurd h (by decide)) hrs
  cases l' with
  | some _ => exact .inl (by simp [Ty.joinsStrings, stringOrUnknown, hls, hrs])
  | none =>
    cases r' with
    | some _ => exact .inl (by simp [Ty.joinsStrings, stringOrUnknown, hls, hrs])
    | none => exact .inr ⟨rfl, rfl⟩

theorem eq_of_numericOrUnknown (h : numericOrUnknown t = true) :
    t = none ∨ t = some .integer ∨ t = some .decimal := by
  cases t with
  | none => exact .inl rfl
  | some t => simpa [numericOrUnknown, Ty.knownIs, isNumeric] using h

theorem joinsStrings_of_bothNumeric (h : bothNumeric l r = true) : joinsStrings l r = false := by
  obtain ⟨hl, hr⟩ := (Bool.and_eq_true _ _).mp h
  rcases eq_of_numericOrUnknown hl with rfl | rfl | rfl <;>
    rcases eq_of_numericOrUnknown hr with rfl | rfl | rfl <;> rfl

theorem Forgets.numericResult (hl : Forgets l l') (hr : Forgets r r') :
    Forgets (numericResult l r) (numericResult l' r') := by
  unfold Ty.numericResult
  by_cases hunknown : l' = none ∧ r' = none
  · rw [if_pos hunknown]
    exact .inr (.inl rfl)
  · have hknown : ¬(l = none ∧ r = none) := fun h =>
      hunknown ⟨hl.eq_none h.1, hr.eq_none h.2⟩
    rw [if_neg hunknown, if_neg hknown]
    by_cases hleft : l' = some .decimal ∨ r' = some .decimal
    · have hdecimal : l = some .decimal ∨ r = some .decimal :=
        hleft.imp hl.eq_decimal hr.eq_decimal
      rw [if_pos hleft, if_pos hdecimal]
      exact .refl _
    · rw [if_neg hleft]
      split
      · exact .inr (.inr ⟨rfl, rfl⟩)
      · exact .refl _

theorem Forgets.assignable {place : Option Ty} (h : Forgets t u)
    (ht : assignable place t = true) : assignable place u = true := by
  rcases h with rfl | rfl | ⟨rfl, rfl⟩
  · exact ht
  · cases place <;> rfl
  · cases place with
    | none => rfl
    | some p =>
      obtain rfl : p = .decimal := by simpa [Ty.assignable] using ht
      rfl

end Ty

open Ty

/-! ## Results -/

variable {t u l l' r r' : Option Ty}

theorem UnaryOp.resultType_of_forgets {op : UnaryOp} (h : Forgets t u) {s : Option Ty}
    (hs : op.resultType t = .ok s) : ∃ s', op.resultType u = .ok s' ∧ Forgets s s' := by
  cases op with
  | group =>
    cases hs
    exact ⟨u, rfl, h⟩
  | positive | negative =>
    simp only [resultType] at hs
    split at hs
    · rename_i hn
      cases hs
      have hn' : numericOrUnknown u = true := h.knownIs (fun _ => rfl) hn
      exact ⟨u, by simp only [resultType, hn', if_true], h⟩
    · cases hs
  | not =>
    simp only [resultType] at hs
    split at hs
    · rename_i hb
      cases hs
      exact ⟨_, by simp only [resultType, h.booleanOrUnknown hb, if_true], .refl _⟩
    · cases hs

namespace BinaryOp

theorem resultType_arithmetic {op : Arithmetic} (hpower : op ≠ .power)
    (h : bothNumeric l r = true) :
    (arithmetic op).resultType l r = .ok (.arithmetic op, numericResult l r) := by
  cases op with
  | power => exact absurd rfl hpower
  | add => simp [resultType, joinsStrings_of_bothNumeric h, h]
  | subtract | multiply | divide | modulo => simp [resultType, h]

/-- Written again, an operator is chosen for what is left of the types of its operands. Strings of
which none is known any more are taken for numbers. -/
theorem resultType_of_forgets {op : BinaryOp} (hl : Forgets l l') (hr : Forgets r r')
    (h : op.resultType l r = .ok (op, t))
    (hpower : op = power → powerResult l' r' = powerResult l r) :
    ∃ chosen t', op.spoken.resultType l' r' = .ok (chosen, t') ∧ chosen.spoken = op.spoken ∧
      Forgets t t' := by
  cases rule_of_resultType h with
  | arithmetic arith hne hn =>
    exact ⟨_, _, resultType_arithmetic hne (hl.bothNumeric hr hn), rfl, hl.numericResult hr⟩
  | power hn =>
    refine ⟨.power, powerResult l' r', ?_, rfl, .inl (hpower rfl)⟩
    simp [spoken, resultType, hl.bothNumeric hr hn]
  | join _ _ hj =>
    rcases hl.joinsStrings hr hj with hj' | ⟨rfl, rfl⟩
    · exact ⟨concat, _, by simp [spoken, resultType, hj'], rfl, .refl _⟩
    · exact ⟨add, none, rfl, rfl, .inr (.inl rfl)⟩
  | relation rel hc =>
    exact ⟨.relation rel, _, by simp [spoken, resultType, hl.comparable hr hc], rfl, .refl _⟩
  | connective c hlt hrt =>
    refine ⟨.connective c, some .boolean, ?_, rfl, .refl _⟩
    simp [spoken, resultType, hl.booleanOrUnknown hlt, hr.booleanOrUnknown hrt]

end BinaryOp

theorem TypedExpr.elementType_of_forgets {array array' index index' : Option Ty}
    (ha : Forgets array array') (hi : Forgets index index')
    (h : elementType array index = .ok t) :
    elementType array' index' = .ok (array'.bind Ty.element?) ∧
      Forgets t (array'.bind Ty.element?) := by
  obtain ⟨hindex, harray⟩ := elementType_eq_ok h
  have hindex' : index' = none ∨ index' = some .integer := by
    rcases hi with rfl | rfl | ⟨rfl, rfl⟩
    · exact hindex
    · exact .inl rfl
    · exact .inr rfl
  rcases harray with ⟨rfl, rfl⟩ | ⟨s, depth, rfl, rfl⟩
  · rcases ha with rfl | rfl | ⟨h, -⟩
    · exact ⟨by simp [elementType, hindex'], .refl _⟩
    · exact ⟨by simp [elementType, hindex'], .refl _⟩
    · cases h
  · rcases ha with rfl | rfl | ⟨h, -⟩
    · exact ⟨by simp [elementType, hindex'], .refl _⟩
    · exact ⟨by simp [elementType, hindex'], .inr (.inl rfl)⟩
    · cases h

end ComputedField
