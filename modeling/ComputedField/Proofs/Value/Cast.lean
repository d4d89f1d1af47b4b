import ComputedField.Proofs.Decimal.Number
import ComputedField.Proofs.Environment.Conforms

/-!
# The implicit cast

The cast goes down a value and a type at once, and the two need not agree: rows may be too shallow
for the type, too deep, or mixed. What it does is therefore said place by place. A place is a list
of items to go through (`Value.itemAt?`), and a type declares decimals at one dimension at most
(`Ty.decimalDimension?`). The cast leaves the places as they are, and widens the integers at that
dimension and nothing else (`Value.rel_itemAt?_castTo`). With what it does to the types of values,
these are its laws (`Value.castTo_lawful`).
-/

set_option autoImplicit false

namespace ComputedField

/-! ## The dimension of the decimals -/

namespace Ty

/-- How many arrays a type declares around decimals; nothing, if it declares no decimals. An array
type stands for one array at least. -/
def decimalDimension? : Option Ty → Option Nat
  | some (scalar .decimal) => some 0
  | some (array .decimal depth) => some (max depth 1)
  | _ => none

variable {t : Option Ty} {n : Nat}

/-- One array further in, the decimals are one dimension nearer. -/
theorem decimalDimension?_element :
    decimalDimension? (t.bind element?) = some n ↔ decimalDimension? t = some (n + 1) := by
  rcases t with _ | s | ⟨s, depth⟩
  · simp [decimalDimension?]
  · cases s <;> simp [decimalDimension?, element?]
  · cases s with
    | decimal =>
      simp only [Option.bind_some, element?]
      by_cases hdepth : 1 < depth
      · simp only [if_pos hdepth, decimalDimension?, Option.some.injEq]
        omega
      · simp only [if_neg hdepth, decimalDimension?, Option.some.injEq]
        omega
    | boolean | integer | string | date =>
      by_cases hdepth : 1 < depth <;> simp [decimalDimension?, element?, hdepth]

theorem decimalDimension?_eq_zero : decimalDimension? t = some 0 ↔ t = some .decimal := by
  rcases t with _ | s | ⟨s, depth⟩
  · simp [decimalDimension?]
  · cases s <;> simp [decimalDimension?]
  · cases s <;> simp [decimalDimension?]

/-- Decimals inside of arrays are those of an array type. -/
theorem eq_array_of_decimalDimension? (h : decimalDimension? t = some (n + 1)) :
    ∃ depth, t = some (array .decimal depth) := by
  rcases t with _ | s | ⟨s, depth⟩
  · cases h
  · cases s <;> cases h
  · cases s with
    | decimal => exact ⟨depth, rfl⟩
    | boolean | integer | string | date => cases h

/-- What the rules let be stored in a place of a type is what widens to it: a value of unknown type,
one of the type itself, and an integer where a decimal is asked for. -/
theorem assignable_iff_widens {p : Ty} : assignable (some p) t = true ↔ Widens t (some p) := by
  refine ⟨widens_of_assignable, fun h => ?_⟩
  rcases h with (rfl | rfl) | ⟨rfl, hp⟩
  · rfl
  · simp [assignable]
  · obtain rfl := Option.some.inj hp
    rfl

end Ty

/-! ## Places in a value -/

theorem exists_of_rel_some {α β : Type} {r : α → β → Prop} {x : α} {after : Option β}
    (h : Option.Rel r (some x) after) : ∃ y, after = some y ∧ r x y := by
  cases h with
  | some h => exact ⟨_, rfl, h⟩

namespace Value

/-- The items of an array; other values have none. -/
def items : Value → List Value
  | array items => items
  | _ => []

/-- What stands at a place, each number being that of the item to go on in; nothing, where the place
leaves the value. -/
def itemAt? (v : Value) : List Nat → Option Value
  | [] => some v
  | i :: place => v.items[i]?.bind fun item => item.itemAt? place

/-! ## What the cast changes -/

/-- A type without decimals changes nothing. -/
theorem castTo_eq_self {t : Option Ty} (h : Ty.decimalDimension? t = none) (v : Value) :
    v.castTo t = v := by
  rw [castTo]
  · rintro n - rfl
    cases h
  · rintro items depth - rfl
    cases h

/-- An array is cast item by item, whatever the type: one that is no array of decimals has nothing
to change in the items either. -/
theorem castTo_array (items : List Value) (t : Option Ty) :
    (array items).castTo t = array (items.map (·.castTo (t.bind Ty.element?))) := by
  by_cases ht : ∃ depth, t = some (.array .decimal depth)
  · obtain ⟨depth, rfl⟩ := ht
    simp only [castTo, castItems_eq_map, Option.bind_some]
  · have helement : Ty.decimalDimension? (t.bind Ty.element?) = none := by
      rw [Option.eq_none_iff_forall_ne_some]
      intro n hn
      exact ht (Ty.eq_array_of_decimalDimension? (Ty.decimalDimension?_element.mp hn))
    have hitems : items.map (·.castTo (t.bind Ty.element?)) = items := by
      rw [List.map_congr_left fun item _ => castTo_eq_self helement item, List.map_id']
    rw [hitems, castTo]
    · intro n hn
      cases hn
    · intro items' depth _ h
      exact ht ⟨depth, h⟩

theorem items_castTo (v : Value) (t : Option Ty) :
    (v.castTo t).items = v.items.map (·.castTo (t.bind Ty.element?)) := by
  cases v with
  | array items => rw [castTo_array]; rfl
  | integer n => rw [castTo_integer]; split <;> rfl
  | boolean | decimal | string | date | null => simp [castTo, items]

/-- `w` is what the cast may make of `v`, where decimals are declared or where they are not: an
integer there is widened to the same number without fractional digits, an array is still an array of
as many items, and all else is what it was. -/
inductive Widened (declared : Prop) : Value → Value → Prop where
  | integer {n : Int} {d : Decimal} : declared → d.scale = 0 → d.toRat = n →
      Widened declared (.integer n) (.decimal d)
  | array {items items' : List Value} : items'.length = items.length →
      Widened declared (.array items) (.array items')
  | same {v : Value} : v.kind ≠ .array → (v.kind = .integer → ¬declared) → Widened declared v v

theorem Widened.of_integer {declared : Prop} {n : Int} {w : Value}
    (h : Widened declared (.integer n) w) (hd : declared) :
    ∃ d : Decimal, w = .decimal d ∧ d.scale = 0 ∧ d.toRat = n := by
  cases h with
  | integer _ hscale hnumber => exact ⟨_, rfl, hscale, hnumber⟩
  | same _ hnot => exact absurd hd (hnot rfl)

theorem Widened.eq {declared : Prop} {v w : Value} (h : Widened declared v w)
    (hv : v.kind ≠ .array) (hd : ¬declared) : w = v := by
  cases h with
  | integer hd' => exact absurd hd' hd
  | array => exact absurd rfl hv
  | same => rfl

/-- The cast at the value itself, before any item is looked into. -/
theorem widened_castTo (v : Value) (t : Option Ty) :
    Widened (Ty.decimalDimension? t = some 0) v (v.castTo t) := by
  cases v with
  | array items =>
    rw [castTo_array]
    exact .array (List.length_map _)
  | integer n =>
    rw [castTo_integer]
    split
    · next ht => exact .integer (Ty.decimalDimension?_eq_zero.mpr ht) rfl (Decimal.toRat_ofInt n)
    · next ht => exact .same (by simp [kind]) fun _ h => ht (Ty.decimalDimension?_eq_zero.mp h)
  | boolean | decimal | string | date | null =>
    simp only [castTo]
    exact .same (by simp [kind]) (by simp [kind])

/-- **The cast keeps every place**, and changes what stands there if it is an integer and its
dimension is the one of the decimals. -/
theorem rel_itemAt?_castTo (v : Value) (t : Option Ty) (place : List Nat) :
    Option.Rel (Widened (Ty.decimalDimension? t = some place.length))
      (v.itemAt? place) ((v.castTo t).itemAt? place) := by
  -- by induction on the place: an item on the way is cast to what the type says of the items
  induction place generalizing v t with
  | nil => exact .some (widened_castTo v t)
  | cons i place ih =>
    simp only [itemAt?, items_castTo, List.getElem?_map]
    cases v.items[i]? with
    | none => exact .none
    | some item =>
      have hitem := ih item (t.bind Ty.element?)
      rwa [Ty.decimalDimension?_element] at hitem

end Value

/-- A function accepts arguments that widen to the types of its parameters, one for each. -/
theorem Function.accepts_iff_widens {σ : Type} {f : Function σ} {types : List (Option Ty)} :
    f.accepts types = true ↔
      List.Forall₂ (fun p t => Ty.Widens t (some p)) f.parameters types := by
  rw [accepts_iff]
  simp only [Ty.assignable_iff_widens]

namespace Value

/-! ## The laws of the cast -/

/-- **The cast is idempotent, keeps the shape of a value and establishes the type.** A second cast
changes nothing, whatever the value and the type. Every place of the value is one of the result and
the other way round: arrays keep their lengths, an integer at the dimension of the decimals is
widened to the decimal of scale zero that is the same number, and all else is the same, so that for
an unknown type everything is. A value of the type, of the unknown type (which is null) or an integer
for a decimal comes out as null or a value of exactly the type; and these are the types that may
stand for a known one where values are stored and where functions are called. -/
theorem castTo_lawful {σ : Type} :
    (∀ (v : Value) (t : Option Ty), (v.castTo t).castTo t = v.castTo t) ∧
    (∀ (v : Value) (t : Option Ty) (place : List Nat),
      Option.Rel (Widened (Ty.decimalDimension? t = some place.length))
        (v.itemAt? place) ((v.castTo t).itemAt? place)) ∧
    (∀ (v : Value) (t u : Option Ty), v.HasType u → Ty.Widens u t → (v.castTo t).HasType t) ∧
    (∀ (p : Ty) (u : Option Ty), Ty.assignable (some p) u = true ↔ Ty.Widens u (some p)) ∧
    ∀ (f : Function σ) (types : List (Option Ty)), f.accepts types = true ↔
      List.Forall₂ (fun p u => Ty.Widens u (some p)) f.parameters types := by
  refine ⟨castTo_castTo_self, rel_itemAt?_castTo, ?_, ?_, ?_⟩
  · intro v t u hv hu
    exact hv.castTo hu
  · intro p u
    exact Ty.assignable_iff_widens
  · intro f types
    exact Function.accepts_iff_widens

/-- Rows too shallow for a matrix of decimals, of its depth and too deep: of the three integers only
the one in the second row is widened. -/
theorem castTo_lawful_ragged :
    let rows : Value := .array
      [.integer 1, .array [.integer 2, .null, .string "2"], .array [.array [.integer 3]]]
    let cast : Value := rows.castTo (some (.array .decimal 2))
    cast.castTo (some (.array .decimal 2)) = cast ∧
      (∃ d : Decimal, cast.itemAt? [1, 0] = some (.decimal d) ∧ d.scale = 0 ∧ d.toRat = 2) ∧
      cast.itemAt? [0] = some (.integer 1) ∧ cast.itemAt? [2, 0, 0] = some (.integer 3) ∧
      Ty.assignable (some .decimal) (some .integer) = true ∧
      ((integer 7).castTo (some .decimal)).HasType (some .decimal) := by
  intro rows cast
  obtain ⟨hidempotent, hplaces, htypes, hassignable, -⟩ := castTo_lawful (σ := Unit)
  have hcast := hplaces rows (some (.array .decimal 2))
  have hassigned : Ty.assignable (some .decimal) (some .integer) = true := rfl
  refine ⟨hidempotent rows _, ?_, ?_, ?_, hassigned,
    htypes _ _ _ (.integer 7) ((hassignable _ _).mp hassigned)⟩
  · obtain ⟨w, hw, hwidened⟩ := exists_of_rel_some (x := integer 2) (hcast [1, 0])
    obtain ⟨d, rfl, hscale, hnumber⟩ := hwidened.of_integer rfl
    exact ⟨d, hw, hscale, by simpa using hnumber⟩
  · obtain ⟨w, hw, hwidened⟩ := exists_of_rel_some (x := integer 1) (hcast [0])
    rw [← hwidened.eq (by decide) (by decide)]
    exact hw
  · obtain ⟨w, hw, hwidened⟩ := exists_of_rel_some (x := integer 3) (hcast [2, 0, 0])
    rw [← hwidened.eq (by decide) (by decide)]
    exact hw

end Value

end ComputedField
