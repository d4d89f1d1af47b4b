import ComputedField.Proofs.Outcome
import ComputedField.Value.Element

/-!
# Reading and writing along a path

`Value.elementAt` follows indices one after the other, and `Value.setElement` replaces what they lead
to. The two obey the laws of a lens (`setElement_lens`): what was written is read back, every other
path reads as before, and the arrays on the way keep their lengths.

`Value.write` is the same write done in place: the array stays where it is while the write goes on in
one of its items, and keeps whatever has become of that item. A write that leads nowhere or fails,
however far in, leaves the slot as it was.
-/

set_option autoImplicit false

namespace ComputedField

namespace Value

variable {slot after v : Value} {indices : List Value}

/-! ## Paths -/

/-- What the indices lead to, each in what the ones before it have led to. -/
def elementAt (slot : Value) (indices : List Value) : Except EvalFault Value :=
  indices.foldlM element slot

/-- Every index is an integer, and within the bounds of the array that the indices before it lead
to. -/
def InBounds (slot : Value) (indices : List Value) : Prop :=
  ∀ before index rest, indices = before ++ index :: rest →
    ∃ (n : Int) (items : List Value), index = .integer n ∧
      slot.elementAt before = .ok (.array items) ∧ 0 ≤ n ∧ n < items.length

theorem elementAt_cons (slot index : Value) (rest : List Value) :
    slot.elementAt (index :: rest) = slot.element index >>= fun x => x.elementAt rest := rfl

theorem elementAt_concat (slot : Value) (before : List Value) (index : Value) :
    slot.elementAt (before ++ [index]) = slot.elementAt before >>= fun x => x.element index := by
  simp only [elementAt, List.foldlM_append, List.foldlM_cons, List.foldlM_nil, bind_pure]

theorem element_item {items : List Value} {i : Nat} (hi : i < items.length) :
    (array items).element (.integer i) = .ok items[i] := by
  simp [element, position?, hi]

/-- Another index leads to the same as before, be it to an item, to nowhere or to a fault. -/
theorem element_set {items : List Value} {i : Nat} {index : Value} (h : index ≠ .integer i)
    (x : Value) : (array (items.set i x)).element index = (array items).element index := by
  cases index with
  | integer n =>
    simp only [element, position?, List.length_set]
    by_cases hn : 0 ≤ n ∧ n.toNat < items.length
    · have hne : i ≠ n.toNat := by
        rintro rfl
        exact h (by rw [Int.toNat_of_nonneg hn.1])
      rw [if_pos hn]
      simp only [ok_bind, List.getElem?_set_ne hne]
    · rw [if_neg hn]
      rfl
  | boolean | decimal | string | date | array | null => rfl

/-- Only an integer within the bounds is a place of an array. -/
theorem position?_eq_some {index : Value} {length i : Nat}
    (h : index.position? length = .ok (some i)) : index = .integer i ∧ i < length := by
  cases index with
  | integer n =>
    simp only [position?, Except.ok.injEq] at h
    split at h
    · next hn =>
      cases h
      exact ⟨by rw [Int.toNat_of_nonneg hn.1], hn.2⟩
    · cases h
  | boolean | decimal | string | date | array | null => cases h

/-! ## The value at the end of a path replaced -/

/-- `after` is `slot` with `v` at the end of a path that stays within bounds. -/
inductive Replaces (v : Value) : Value → List Value → Value → Prop where
  | here (slot : Value) : Replaces v slot [] v
  | item {items rest : List Value} {i : Nat} {x : Value} (hi : i < items.length) :
      Replaces v items[i] rest x →
      Replaces v (.array items) (.integer i :: rest) (.array (items.set i x))

namespace Replaces

/-- What was written is read back. -/
theorem elementAt (h : Replaces v slot indices after) : after.elementAt indices = .ok v := by
  induction h with
  | here slot => rfl
  | @item items rest i x hi _ ih =>
    rw [elementAt_cons, element_item (by simpa using hi), List.getElem_set_self]
    exact ih

/-- A path that diverges reads as before. -/
theorem elementAt_of_ne (h : Replaces v slot indices after) {before rest other : List Value}
    {index index' : Value} (hindices : indices = before ++ index :: rest) (hne : index' ≠ index) :
    after.elementAt (before ++ index' :: other) = slot.elementAt (before ++ index' :: other) := by
  induction h generalizing before with
  | here slot => simp at hindices
  | @item items tail i x hi _ ih =>
    cases before with
    | nil =>
      cases hindices
      rw [List.nil_append, elementAt_cons, elementAt_cons, element_set hne]
    | cons first before =>
      cases hindices
      rw [List.cons_append, elementAt_cons, elementAt_cons, element_item hi,
        element_item (by simpa using hi), List.getElem_set_self]
      exact ih rfl

/-- The arrays on the way keep their lengths. -/
theorem length_eq (h : Replaces v slot indices after) {before rest : List Value} {index : Value}
    (hindices : indices = before ++ index :: rest) :
    ∃ items items', slot.elementAt before = .ok (.array items) ∧
      after.elementAt before = .ok (.array items') ∧ items'.length = items.length := by
  induction h generalizing before with
  | here slot => simp at hindices
  | @item items tail i x hi _ ih =>
    cases before with
    | nil => exact ⟨items, items.set i x, rfl, rfl, List.length_set⟩
    | cons first before =>
      cases hindices
      rw [elementAt_cons, elementAt_cons, element_item hi, element_item (by simpa using hi),
        List.getElem_set_self]
      exact ih rfl

end Replaces

/-- A path stays within bounds exactly if the value at its end can be replaced. -/
theorem inBounds_iff (v slot : Value) (indices : List Value) :
    slot.InBounds indices ↔ ∃ after, Replaces v slot indices after := by
  constructor
  · intro h
    induction indices generalizing slot with
    | nil => exact ⟨v, .here slot⟩
    | cons index rest ih =>
      obtain ⟨n, items, rfl, hslot, hn, hlength⟩ := h [] index rest rfl
      cases hslot
      obtain ⟨i, rfl⟩ := Int.eq_ofNat_of_zero_le hn
      have hi : i < items.length := by omega
      obtain ⟨x, hx⟩ := ih items[i] fun before index' rest' hrest => by
        obtain ⟨n, items', hindex, hfound, hbounds⟩ :=
          h (.integer i :: before) index' rest' (by rw [hrest]; rfl)
        rw [elementAt_cons, element_item hi] at hfound
        exact ⟨n, items', hindex, hfound, hbounds⟩
      exact ⟨_, .item hi hx⟩
  · rintro ⟨after, h⟩
    induction h with
    | here slot =>
      intro before index rest hindices
      simp at hindices
    | @item items tail i x hi _ ih =>
      intro before index rest hindices
      cases before with
      | nil =>
        cases hindices
        exact ⟨i, items, rfl, rfl, by omega, by omega⟩
      | cons first before =>
        cases hindices
        rw [elementAt_cons, element_item hi]
        exact ih before index rest rfl

/-! ## Paths that lead nowhere -/

/-- On its way the path meets a null where an array would be, or in an array a null index or one out
of range. -/
inductive LeadsNowhere : Value → List Value → Prop where
  | nullArray (index : Value) (rest : List Value) : LeadsNowhere null (index :: rest)
  | nullIndex (items rest : List Value) : LeadsNowhere (.array items) (null :: rest)
  | outOfRange {items : List Value} {n : Int} (rest : List Value) :
      ¬(0 ≤ n ∧ n.toNat < items.length) → LeadsNowhere (.array items) (.integer n :: rest)
  | item {items rest : List Value} {i : Nat} (hi : i < items.length) :
      LeadsNowhere items[i] rest → LeadsNowhere (.array items) (.integer i :: rest)

/-- **Nothing is written exactly where the path leads nowhere**, if it does not fail. -/
theorem setElement_eq_none_iff :
    slot.setElement indices v = .ok none ↔ slot.LeadsNowhere indices := by
  constructor
  · intro h
    induction indices generalizing slot with
    | nil => cases h
    | cons index rest ih =>
      cases slot with
      | null => exact .nullArray index rest
      | array items =>
        cases index with
        | null => exact .nullIndex items rest
        | integer n =>
          by_cases hn : 0 ≤ n ∧ n.toNat < items.length
          · obtain ⟨i, rfl⟩ := Int.eq_ofNat_of_zero_le hn.1
            have hi : i < items.length := by omega
            refine .item hi (ih ?_)
            simpa [setElement, position?, hi, bind_eq_ok] using h
          · exact .outOfRange rest hn
        | boolean | decimal | string | date | array => cases h
      | boolean | integer | decimal | string | date => cases h
  · intro h
    induction h with
    | nullArray => rfl
    | nullIndex => rfl
    | outOfRange rest hn => simp [setElement, position?, hn]
    | item hi _ ih => simp [setElement, position?, hi, ih]

/-! ## Writing in place -/

/-- Writes `value` into the slot at the element that `indices` lead to. The item that an index leads
to is a slot by itself, and the array keeps what has become of it, written or not. Gives whether the
value was written, and the slot. -/
def write (slot : Value) (indices : List Value) (value : Value) : Except EvalFault Bool × Value :=
  match indices with
  | [] => (.ok true, value)
  | index :: rest =>
    match slot with
    | null => (.ok false, slot)
    | .array items =>
      match position? index items.length with
      | .error fault => (.error fault, slot)
      | .ok none => (.ok false, slot)
      | .ok (some i) =>
        let (written, item) := (items[i]?.getD null).write rest value
        (written, .array (items.set i item))
    | v => (.error (.kind (.notIndexable v.kind)), slot)

/-- The write of a value that is not mutated but given back. -/
theorem setElement_eq (slot : Value) (indices : List Value) (value : Value) :
    slot.setElement indices value =
      (slot.write indices value).1.map fun written =>
        if written then some (slot.write indices value).2 else none := by
  induction indices generalizing slot with
  | nil => rfl
  | cons index rest ih =>
    cases slot with
    | array items =>
      simp only [setElement, write]
      cases index.position? items.length with
      | error fault => rfl
      | ok place =>
        cases place with
        | none => rfl
        | some i =>
          simp only [ok_bind, ih]
          rcases ((items[i]?.getD null).write rest value) with ⟨_ | _ | _, item⟩ <;> rfl
    | null | boolean | integer | decimal | string | date => rfl

theorem Replaces.write (h : Replaces v slot indices after) :
    slot.write indices v = (.ok true, after) := by
  induction h with
  | here slot => rfl
  | @item items rest i x hi _ ih => simp [Value.write, position?, hi, ih]

/-- **A write happens as a whole or not at all.** What has become of the inner slots is put back
into the arrays around them; if the value was not written, these are the items that were there. -/
theorem write_cases (slot : Value) (indices : List Value) (v : Value) :
    (∃ after, Replaces v slot indices after) ∨
      ((slot.write indices v).1 ≠ .ok true ∧ (slot.write indices v).2 = slot) := by
  induction indices generalizing slot with
  | nil => exact .inl ⟨v, .here slot⟩
  | cons index rest ih =>
    cases slot with
    | array items =>
      cases hplace : index.position? items.length with
      | error fault => exact .inr (by simp [Value.write, hplace])
      | ok place =>
        cases place with
        | none => exact .inr (by simp [Value.write, hplace])
        | some i =>
          obtain ⟨rfl, hi⟩ := position?_eq_some hplace
          rcases ih items[i] with ⟨x, hx⟩ | ⟨hfailed, hsame⟩
          · exact .inl ⟨_, .item hi hx⟩
          · right
            have hitem : items[i]?.getD null = items[i] := by simp [hi]
            simp only [Value.write, hplace, hitem, hsame, List.set_getElem_self]
            exact ⟨hfailed, trivial⟩
    | null | boolean | integer | decimal | string | date => exact .inr (by simp [Value.write])

theorem setElement_eq_some_iff :
    slot.setElement indices v = .ok (some after) ↔ Replaces v slot indices after := by
  rw [setElement_eq]
  constructor
  · intro h
    rcases write_cases slot indices v with ⟨after', hreplaces⟩ | ⟨hfailed, -⟩
    · rw [hreplaces.write] at h
      cases h
      exact hreplaces
    · rcases hwrite : slot.write indices v with ⟨_ | _ | _, after'⟩
      · rw [hwrite] at h; cases h
      · rw [hwrite] at h; cases h
      · rw [hwrite] at hfailed; exact absurd rfl hfailed
  · intro h
    rw [h.write]
    rfl

/-- **The laws of reading and writing along a path.** A write in place is the one of `setElement`. It
succeeds exactly if the path stays within bounds. Then the path reads the new value, every path that
diverges from it at some index reads what it read before, and every array on the way keeps its
length. Where nothing was written, be it that the path leads nowhere or that it fails, the slot is
what it was. -/
theorem setElement_lens (slot : Value) (indices : List Value) (v : Value) :
    ∃ (written : Except EvalFault Bool) (after : Value),
      slot.write indices v = (written, after) ∧
      slot.setElement indices v = written.map (fun b => if b then some after else none) ∧
      (written = .ok true ↔ slot.InBounds indices) ∧
      (written = .ok true →
        after.elementAt indices = .ok v ∧
        (∀ before index rest index' other, indices = before ++ index :: rest → index' ≠ index →
          after.elementAt (before ++ index' :: other) =
            slot.elementAt (before ++ index' :: other)) ∧
        ∀ before index rest, indices = before ++ index :: rest →
          ∃ items items', slot.elementAt before = .ok (.array items) ∧
            after.elementAt before = .ok (.array items') ∧ items'.length = items.length) ∧
      (written ≠ .ok true → after = slot) := by
  refine ⟨_, _, rfl, setElement_eq slot indices v, ?_⟩
  rw [inBounds_iff v]
  rcases write_cases slot indices v with ⟨after, h⟩ | ⟨hfailed, hsame⟩
  · rw [h.write]
    refine ⟨iff_of_true rfl ⟨after, h⟩, fun _ => ⟨h.elementAt, ?_, ?_⟩, fun hne => absurd rfl hne⟩
    · intro before index rest index' other hindices hne
      exact h.elementAt_of_ne hindices hne
    · intro before index rest hindices
      exact h.length_eq hindices
  · refine ⟨iff_of_false hfailed ?_, fun hok => absurd hok hfailed, fun _ => hsame⟩
    rintro ⟨after, h⟩
    exact hfailed (by rw [h.write])

/-- In a ragged matrix the write of one item leaves its neighbour and the null beside its row. -/
theorem setElement_lens_matrix :
    ∃ after, (array [array [.integer 1, .integer 2], null]).write [.integer 0, .integer 1]
        (.integer 9) = (.ok true, after) ∧
      after.elementAt [.integer 0, .integer 1] = .ok (.integer 9) ∧
      after.elementAt [.integer 0, .integer 0] = .ok (.integer 1) ∧
      after.elementAt [.integer 1, .integer 1] = .ok null := by
  obtain ⟨written, after, hwrite, -, -, hwritten, -⟩ :=
    setElement_lens (array [array [.integer 1, .integer 2], null]) [.integer 0, .integer 1]
      (.integer 9)
  obtain rfl : .ok true = written := congrArg Prod.fst hwrite
  obtain ⟨hread, hother, -⟩ := hwritten rfl
  refine ⟨after, hwrite, hread, ?_, ?_⟩
  · exact hother [.integer 0] (.integer 1) [] (.integer 0) [] rfl (by simp)
  · exact hother [] (.integer 0) [.integer 1] (.integer 1) [.integer 1] rfl (by simp)

end Value

end ComputedField
