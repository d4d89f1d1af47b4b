import ComputedField.Proofs.Outcome
import ComputedField.Typing.Check
import ComputedField.Value.Element

/-!
# The types of values

`Value.HasType v t` is what a static type promises of a value: null, or a value of exactly that
type, and null alone where the type is unknown. The cast keeps such a value as it is
(`castTo_eq`) and establishes the types that it widens to (`castTo`); reading and writing the
elements of an array cannot fail and stays within the types (`element`, `Ty.Path.setElement`).
-/

set_option autoImplicit false

namespace ComputedField

/-- `v` is null or a value of exactly the type `t`; only null is of the unknown type. An array is
of its type element by element, to any depth. -/
inductive Value.HasType : Value → Option Ty → Prop where
  | null (t : Option Ty) : HasType .null t
  | boolean (b : Bool) : HasType (.boolean b) (some .boolean)
  | integer (n : Int) : HasType (.integer n) (some .integer)
  | decimal (d : Decimal) : HasType (.decimal d) (some .decimal)
  | string (s : String) : HasType (.string s) (some .string)
  | date (d : Date) : HasType (.date d) (some .date)
  | array {items : List Value} {s : Scalar} {depth : Nat}
      (h : ∀ v ∈ items, HasType v (Ty.array s depth).element?) :
      HasType (.array items) (some (.array s depth))

/-! ## Types that a value passes through -/

namespace Ty

/-- What is of type `t` is of type `note` without a cast. A node keeps such a note where the rules
know no type of its own: only null comes out of it. -/
def NotedAs (t note : Option Ty) : Prop := t = none ∨ t = note

/-- What is of type `t` is of type `u` after the cast to `u`. -/
def Widens (t u : Option Ty) : Prop := NotedAs t u ∨ (t = some .integer ∧ u = some .decimal)

theorem NotedAs.refl (t : Option Ty) : NotedAs t t := .inr rfl

theorem NotedAs.eq_of_some {t : Ty} {note : Option Ty} (h : NotedAs (some t) note) :
    note = some t := by
  rcases h with h | h
  · cases h
  · exact h.symm

theorem Widens.refl (t : Option Ty) : Widens t t := .inl (.refl t)

theorem Widens.trans {t u v : Option Ty} (h : Widens t u) (hu : Widens u v) : Widens t v := by
  rcases h with (rfl | rfl) | ⟨rfl, rfl⟩
  · exact .inl (.inl rfl)
  · exact hu
  · rcases hu with hu | ⟨hu, -⟩
    · exact .inr ⟨rfl, hu.eq_of_some⟩
    · cases hu

theorem Widens.trans_notedAs {t u note : Option Ty} (h : Widens t u) (hu : NotedAs u note) :
    Widens t note :=
  h.trans (.inl hu)

theorem widens_of_assignable {p : Ty} {t : Option Ty} (h : assignable (some p) t = true) :
    Widens t (some p) := by
  cases t with
  | none => exact .inl (.inl rfl)
  | some v =>
    simp only [assignable, Bool.or_eq_true, Bool.and_eq_true, beq_iff_eq] at h
    rcases h with rfl | ⟨rfl, rfl⟩
    · exact .refl _
    · exact .inr ⟨rfl, rfl⟩

/-- Both branches of a conditional widen to its type. -/
theorem widens_of_branchType? {x y t : Option Ty} (h : branchType? x y = some t) :
    Widens x t ∧ Widens y t := by
  unfold branchType? at h
  split at h
  · cases h; exact ⟨.inl (.inl rfl), .refl _⟩
  · cases h; exact ⟨.refl _, .inl (.inl rfl)⟩
  · rename_i x y
    split at h
    · rename_i hxy
      cases h; subst hxy; exact ⟨.refl _, .refl _⟩
    · split at h
      · rename_i hn
        simp only [isNumeric, Bool.and_eq_true, Bool.or_eq_true, beq_iff_eq] at hn
        cases h
        refine ⟨?_, ?_⟩
        · rcases hn.1 with rfl | rfl
          · exact .inr ⟨rfl, rfl⟩
          · exact .refl _
        · rcases hn.2 with rfl | rfl
          · exact .inr ⟨rfl, rfl⟩
          · exact .refl _
      · cases h

end Ty

namespace Value

theorem castItems_eq_map (items : List Value) (t : Option Ty) :
    castItems items t = items.map (·.castTo t) := by
  induction items with
  | nil => simp [castItems]
  | cons v vs ih => simp [castItems, ih]

@[simp] theorem castTo_null (t : Option Ty) : null.castTo t = null := by
  simp [castTo]

@[simp] theorem castTo_decimal (d : Decimal) (t : Option Ty) :
    (decimal d).castTo t = decimal d := by
  simp [castTo]

/-- An integer is widened where a decimal is asked for, and nowhere else. -/
theorem castTo_integer (n : Int) (t : Option Ty) :
    (integer n).castTo t = if t = some .decimal then decimal (Decimal.ofInt n) else integer n := by
  by_cases ht : t = some .decimal
  · subst ht
    simp [castTo]
  · rw [if_neg ht, castTo]
    · exact fun _ _ h => ht h
    · exact fun _ _ h => by cases h

/-- The cast establishes at once all that it can: a second one changes nothing, whatever the value
and the type. -/
theorem castTo_castTo_self (v : Value) (t : Option Ty) : (v.castTo t).castTo t = v.castTo t := by
  -- the cast recurses over the items of an array, so the same is shown of lists beside it
  refine castTo.induct (fun v t => (v.castTo t).castTo t = v.castTo t)
    (fun items t => castItems (castItems items t) t = castItems items t) ?_ ?_ ?_ ?_ ?_ v t
  · intro n
    simp [castTo]
  · intro items depth ih
    simp only [castTo, ih]
  · intro v t hinteger harray
    have hv : v.castTo t = v := by
      rw [castTo]
      · exact hinteger
      · exact harray
    rw [hv, hv]
  · intro t
    rfl
  · intro v vs t ih ihs
    simp only [castItems, ih, ihs]

variable {v : Value} {t u : Option Ty}

/-- What is of the unknown type is null. -/
theorem HasType.eq_null (h : v.HasType none) : v = .null := by
  cases h; rfl

/-- The cast to its own type leaves a value alone. -/
theorem HasType.castTo_eq (h : v.HasType t) : v.castTo t = v := by
  induction h with
  | null => simp
  | boolean | integer | decimal | string | date => simp [castTo]
  | @array items s depth _ ih =>
    cases s with
    | decimal =>
      have hmap : items.map (·.castTo (Ty.array .decimal depth).element?) = items := by
        rw [List.map_congr_left ih, List.map_id']
      simp only [castTo, castItems_eq_map, hmap]
    | _ => simp [castTo]

theorem HasType.notedAs (h : v.HasType t) (hu : Ty.NotedAs t u) : v.HasType u := by
  rcases hu with rfl | rfl
  · rw [h.eq_null]; exact .null u
  · exact h

theorem HasType.castTo_of_notedAs (h : v.HasType t) (hu : Ty.NotedAs t u) : v.castTo u = v :=
  (h.notedAs hu).castTo_eq

/-- The cast to a type that the static types allow establishes it. -/
theorem HasType.castTo (h : v.HasType t) (hu : Ty.Widens t u) : (v.castTo u).HasType u := by
  rcases hu with hu | ⟨rfl, rfl⟩
  · have hv := h.notedAs hu
    rw [hv.castTo_eq]; exact hv
  · cases h with
    | null => rw [castTo_null]; exact .null _
    | integer n => simp only [Value.castTo]; exact .decimal _

/-- A cast on the way makes no difference where types widen. -/
theorem HasType.castTo_castTo {x : Option Ty} (h : v.HasType t) (hu : Ty.Widens t u)
    (hx : Ty.Widens u x) : (v.castTo u).castTo x = v.castTo x := by
  rcases hu with hu | ⟨rfl, rfl⟩
  · rw [h.castTo_of_notedAs hu]
  · -- a decimal widens to nothing but itself
    obtain rfl : x = some .decimal := by
      rcases hx with hx | ⟨hx, -⟩
      · exact hx.eq_of_some
      · cases hx
    exact (h.castTo (.inr ⟨rfl, rfl⟩)).castTo_eq

/-! ## Elements -/

/-- A value that may stand as an index leads to one of the places of an array or nowhere. -/
theorem HasType.position? (h : v.HasType (some .integer)) (length : Nat) :
    ∃ place, v.position? length = .ok place ∧ ∀ i ∈ place, i < length := by
  cases h with
  | null => exact ⟨none, rfl, by simp⟩
  | integer n =>
    refine ⟨_, rfl, ?_⟩
    intro i hi
    split at hi
    · rename_i hn
      simp only [Option.mem_def, Option.some.injEq] at hi
      exact hi ▸ hn.2
    · cases hi

/-- An item of an array, or null where there is none. -/
theorem HasType.item {items : List Value} (h : ∀ v ∈ items, v.HasType t) (i : Nat) :
    (items[i]?.getD .null).HasType t := by
  cases hi : items[i]? with
  | none => exact .null t
  | some v => exact h v (List.mem_of_getElem? hi)

theorem HasType.element {array index : Value} {s : Scalar} {depth : Nat}
    (ha : array.HasType (some (.array s depth))) (hi : index.HasType (some .integer)) :
    ∃ v, array.element index = .ok v ∧ v.HasType (Ty.array s depth).element? := by
  cases ha with
  | null => exact ⟨.null, rfl, .null _⟩
  | array hitems =>
    rename_i items
    obtain ⟨place, hplace, -⟩ := hi.position? items.length
    cases place with
    | none => exact ⟨.null, by simp [Value.element, hplace], .null _⟩
    | some i => exact ⟨items[i]?.getD .null, by simp [Value.element, hplace], .item hitems i⟩

end Value

/-! ## Paths into arrays -/

/-- The indices lead from a value of type `t` to one of type `u`. -/
inductive Ty.Path : Ty → List Value → Ty → Prop where
  | nil (t : Ty) : Path t [] t
  | cons {s : Scalar} {depth : Nat} {t u : Ty} {index : Value} {rest : List Value} :
      (Ty.array s depth).element? = some t → index.HasType (some .integer) → Path t rest u →
      Path (.array s depth) (index :: rest) u

theorem Ty.Path.snoc {t u : Ty} {s : Scalar} {depth : Nat} {indices : List Value} {index : Value}
    (h : Path t indices (.array s depth)) (hu : (Ty.array s depth).element? = some u)
    (hi : index.HasType (some .integer)) : Path t (indices ++ [index]) u := by
  generalize hm : Ty.array s depth = m at h
  induction h with
  | nil => subst hm; exact .cons hu hi (.nil u)
  | cons ht hindex _ ih => exact .cons ht hindex (ih hm)

/-- Storing a value of the type that a path leads to cannot fail, and keeps the type of the whole. -/
theorem Ty.Path.setElement {t u : Ty} {indices : List Value} (h : Path t indices u) {value : Value}
    (hv : value.HasType (some u)) : ∀ {slot : Value}, slot.HasType (some t) →
      ∃ r, slot.setElement indices value = .ok r ∧ ∀ w ∈ r, w.HasType (some t) := by
  induction h with
  | nil => intro slot _; exact ⟨some value, by simp [Value.setElement], by simpa using hv⟩
  | @cons s depth t u index rest ht hi _ ih =>
    intro slot hslot
    cases hslot with
    -- there is no array to store into
    | null => exact ⟨none, by simp [Value.setElement], by simp⟩
    | array hitems =>
      rename_i items
      obtain ⟨place, hplace, -⟩ := hi.position? items.length
      cases place with
      | none =>
        exact ⟨none, by simp [Value.setElement, hplace], by simp⟩
      | some i =>
        obtain ⟨inner, hinner, hw⟩ := ih hv (ht ▸ Value.HasType.item hitems i)
        refine ⟨inner.map fun w => .array (items.set i w), ?_, ?_⟩
        · simp [Value.setElement, hplace, hinner]
        · intro w hmem
          obtain ⟨x, hx, rfl⟩ := Option.map_eq_some_iff.mp hmem
          refine .array fun y hy => ?_
          rcases List.mem_or_eq_of_mem_set hy with hy | rfl
          · exact hitems y hy
          · exact ht ▸ hw y hx

end ComputedField
