import ComputedField.Proofs.Outcome
import ComputedField.Proofs.Token.Lines

/-!
# The order of items

Places of a text are compared by line, and by column within a line. Every character moves the place
on, so the items of a scan stand in strictly increasing order and the end of the text behind them
(`Scan.pairwise_places`).
-/

set_option autoImplicit false

namespace ComputedField

/-! ## Places -/

/-- On an earlier line, or on the same one further to the left. -/
instance : LT Position := ⟨fun p q => p.line < q.line ∨ (p.line = q.line ∧ p.column < q.column)⟩

namespace Position

variable {p q r : Position}

theorem lt_iff : p < q ↔ p.line < q.line ∨ (p.line = q.line ∧ p.column < q.column) := Iff.rfl

theorem lt_irrefl (p : Position) : ¬ p < p := by
  rw [lt_iff]
  omega

theorem lt_trans (h : p < q) (h' : q < r) : p < r := by
  rw [lt_iff] at *
  omega

theorem lt_after (p : Position) (c : Char) : p < p.after c := by
  rw [lt_iff, after]
  split
  · exact .inl (Nat.lt_succ_self _)
  · exact .inr ⟨rfl, Nat.lt_succ_self _⟩

theorem lt_advance {cs : List Char} (hcs : cs ≠ []) (p : Position) : p < p.advance cs := by
  induction cs generalizing p with
  | nil => exact absurd rfl hcs
  | cons c cs ih =>
    rw [advance_cons]
    cases cs with
    | nil => exact lt_after p c
    | cons d cs => exact lt_trans (lt_after p c) (ih (List.cons_ne_nil _ _) _)

end Position

/-! ## Items -/

/-- Where a token stands, or a fault. -/
def Item.pos : Item → Position
  | .ok t => t.pos
  | .error e => e.pos

namespace Scan

/-- Where the items of a scan stand, and where the text ends. -/
def places (s : Scan) : List Position := s.items.map Item.pos ++ [s.stop]

theorem pos_report (pos : Position) (content : Except ScanFault Lexeme) :
    Item.pos ((pos.report content).map (⟨·, pos⟩)) = pos := by
  cases content <;> rfl

/-- Nothing of a text stands before its first character. -/
theorem le_of_mem_places {pos p : Position} {cs : List Char}
    (h : p ∈ (fromPosition pos cs).places) : p = pos ∨ pos < p := by
  fun_induction fromPosition pos cs with
  | case1 pos => exact .inl (List.mem_singleton.mp h)
  | case2 pos c rest _ ih =>
    rcases ih h with rfl | hlt
    · exact .inr (pos.lt_after c)
    · exact .inr (Position.lt_trans (pos.lt_after c) hlt)
  | case3 pos c rest _ piece tail ih =>
    have hpiece := pos.lt_advance (Piece.next_spelling_ne_nil c rest)
    rcases List.mem_cons.mp h with h | h
    · exact .inl (h.trans (pos_report _ _))
    · rcases ih h with rfl | hlt
      · exact .inr hpiece
      · exact .inr (Position.lt_trans hpiece hlt)

theorem pairwise_fromPosition (pos : Position) (cs : List Char) :
    (fromPosition pos cs).places.Pairwise (· < ·) := by
  fun_induction fromPosition pos cs with
  | case1 pos => exact List.pairwise_singleton _ _
  | case2 pos c rest _ ih => exact ih
  | case3 pos c rest _ piece tail ih =>
    refine List.pairwise_cons.mpr ⟨fun p hp => ?_, ih⟩
    have hpiece := pos.lt_advance (Piece.next_spelling_ne_nil c rest)
    rw [pos_report]
    rcases le_of_mem_places hp with rfl | hlt
    · exact hpiece
    · exact Position.lt_trans hpiece hlt

/-- Each item of a scan stands before the next, and the last before the end of the text. -/
theorem pairwise_places (text : String) : (ofText text).places.Pairwise (· < ·) := by
  rw [ofText_eq]
  exact pairwise_fromPosition .start text.toList

/-- A place tells the item that stands there. -/
theorem places_inj {text : String} {i j : Nat} {p : Position}
    (hi : (ofText text).places[i]? = some p)
    (hj : (ofText text).places[j]? = some p) : i = j := by
  obtain ⟨hi', hp⟩ := List.getElem?_eq_some_iff.mp hi
  obtain ⟨hj', hp'⟩ := List.getElem?_eq_some_iff.mp hj
  have hpairwise := List.pairwise_iff_getElem.mp (pairwise_places text)
  rcases Nat.lt_trichotomy i j with hlt | heq | hlt
  · have h := hpairwise i j hi' hj' hlt
    rw [hp, hp'] at h
    exact absurd h p.lt_irrefl
  · exact heq
  · have h := hpairwise j i hj' hi' hlt
    rw [hp, hp'] at h
    exact absurd h p.lt_irrefl

end Scan

end ComputedField
