import ComputedField.Proofs.Token.Order
import ComputedField.Proofs.Token.Partition

/-!
# Where tokens and faults stand

The place of every item of a scan is that of a piece of the text: a token stands where its spelling
begins (`TokenAt`), a fault where the characters begin that cause it (`FaultAt`), and the scan stops
behind the last character. Words of 32 bits are large enough for all places of a text with fewer
than `2 ^ 32 - 1` characters (`place_lt`).
-/

set_option autoImplicit false

namespace ComputedField

/-- The characters of `spelling` begin at `pos` in the text `cs`, and `rest` stands behind them. -/
def StandsAt (cs : List Char) (pos : Position) (spelling rest : List Char) : Prop :=
  ∃ before, cs = before ++ spelling ++ rest ∧ pos = .behind before

/-- The characters that are the item begin at its place. -/
def Item.StandsIn (cs : List Char) : Item → Prop
  | .ok t => ∃ spelling rest, t.lexeme.SpelledBy spelling rest ∧ StandsAt cs t.pos spelling rest
  | .error e => ∃ spelling rest, e.fault.CausedBy spelling rest ∧ StandsAt cs e.pos spelling rest

/-- A token of the text has its first character at `pos`. -/
def TokenAt (text : String) (pos : Position) : Prop :=
  ∃ lexeme, .ok ⟨lexeme, pos⟩ ∈ (Scan.ofText text).items ∧
    Item.StandsIn text.toList (.ok ⟨lexeme, pos⟩)

/-- The fault is one of the text, whose first character stands at its place. -/
def FaultAt (text : String) (e : ScanError) : Prop :=
  .error e ∈ (Scan.ofText text).items ∧ Item.StandsIn text.toList (.error e)

/-- The text ends at `pos`. -/
def EndAt (text : String) (pos : Position) : Prop := pos = .behind text.toList

/-- Each step of the division puts an item where its own characters begin. -/
theorem Splits.standsIn {before cs : List Char} {items : List Item} (h : Splits before cs items) :
    ∀ item ∈ items, Item.StandsIn (before ++ cs) item := by
  induction h with
  | nil => simp
  | blanks _ _ _ _ ih => simpa using ih
  | @token before spelling rest _ _ hspelled _ _ _ ih =>
    rw [List.append_assoc] at ih
    exact List.forall_mem_cons.mpr ⟨⟨spelling, rest, hspelled, before, by simp, rfl⟩, ih⟩
  | @fault before spelling rest _ _ hcaused _ ih =>
    rw [List.append_assoc] at ih
    exact List.forall_mem_cons.mpr ⟨⟨spelling, rest, hcaused, before, by simp, rfl⟩, ih⟩

section Text

variable {text : String}

theorem standsIn_of_mem {item : Item} (h : item ∈ (Scan.ofText text).items) :
    Item.StandsIn text.toList item :=
  (Scan.splits_items_ofText text).standsIn item h

theorem tokenAt_of_mem {t : Token} (h : .ok t ∈ (Scan.ofText text).items) : TokenAt text t.pos :=
  ⟨t.lexeme, h, standsIn_of_mem h⟩

theorem faultAt_of_mem {e : ScanError} (h : .error e ∈ (Scan.ofText text).items) :
    FaultAt text e :=
  ⟨h, standsIn_of_mem h⟩

theorem endAt_stop : EndAt text (Scan.ofText text).stop := Scan.stop_ofText text

/-- All places of a text with fewer than `2 ^ 32 - 1` characters fit into 32 bits. -/
theorem place_lt {p : Position} (h : p ∈ (Scan.ofText text).places)
    (htext : text.length + 1 < 2 ^ 32) : p.line < 2 ^ 32 ∧ p.column < 2 ^ 32 := by
  obtain ⟨before, rest, hsplit, rfl⟩ : ∃ before rest, text.toList = before ++ rest ∧
      p = .behind before := by
    rcases List.mem_append.mp h with h | h
    · obtain ⟨item, hitem, rfl⟩ := List.mem_map.mp h
      have hstands := standsIn_of_mem hitem
      cases item with
      | ok t =>
        obtain ⟨spelling, rest, -, before, hsplit, hpos⟩ := hstands
        exact ⟨before, spelling ++ rest, by rw [hsplit, List.append_assoc], hpos⟩
      | error e =>
        obtain ⟨spelling, rest, -, before, hsplit, hpos⟩ := hstands
        exact ⟨before, spelling ++ rest, by rw [hsplit, List.append_assoc], hpos⟩
    · exact ⟨text.toList, [], (List.append_nil _).symm,
        (List.mem_singleton.mp h).trans (Scan.stop_ofText text)⟩
  have hlength : text.length = before.length + rest.length := by
    rw [← String.length_toList, hsplit, List.length_append]
  have hle := Position.behind_le before
  have hline : 1 ≤ (Position.behind before).line := Nat.le_add_right 1 _
  have hcolumn : 1 ≤ (Position.behind before).column := Nat.le_add_right 1 _
  omega

end Text

end ComputedField
