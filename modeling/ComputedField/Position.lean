/-!
# Places in a source text

`Position` is where a character stands, `Located` a fault together with the place it is reported
at. A located fault is worded as `line L column C: …`; the rest of the sentence is the fault's own.
-/

set_option autoImplicit false

namespace ComputedField

/-- A place in a source text. Lines and columns count from one, and columns count characters.

Both are without bound here. A reader of places with 32 bits for each sees the same ones in a text
with fewer than `2 ^ 32` lines and columns; beyond that it stops at the largest number it has. -/
structure Position where
  line : Nat
  column : Nat
deriving DecidableEq, Repr, Inhabited

namespace Position

/-- Where every text begins. -/
def start : Position := ⟨1, 1⟩

end Position

/-! ## Faults with a place -/

/-- Faults that are worded for the reader of the source text. -/
class Explained (ε : Type) where
  explain : ε → String

/-- A fault and the place it is reported at. -/
structure Located (ε : Type) where
  pos : Position
  fault : ε
deriving DecidableEq, Repr

/-- The full sentence of a located fault. -/
def Located.message {ε : Type} [Explained ε] (e : Located ε) : String :=
  "line " ++ toString e.pos.line ++ " column " ++ toString e.pos.column ++ ": "
    ++ Explained.explain e.fault

/-- Reports the fault of `r`, if there is one, at `pos`. -/
def Position.report {ε α : Type} (pos : Position) (r : Except ε α) : Except (Located ε) α :=
  r.mapError (⟨pos, ·⟩)

@[simp] theorem Position.report_ok {ε α : Type} (pos : Position) (a : α) :
    pos.report (.ok a : Except ε α) = .ok a := rfl

@[simp] theorem Position.report_error {ε α : Type} (pos : Position) (e : ε) :
    pos.report (.error e : Except ε α) = .error ⟨pos, e⟩ := rfl

end ComputedField
