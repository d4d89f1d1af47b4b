import ComputedField.Position

/-!
# Line tables

Scanning counts bytes of the text in UTF-8, the reader is told lines and characters. `Lines.ofText`
notes the byte offset at which every line begins, and `Lines.position` finds the line of an offset
in that table by halving and counts the characters between the two.
-/

set_option autoImplicit false

namespace ComputedField

/-! ## Bytes -/

/-- How many bytes a run of characters takes. -/
def byteLength : List Char → Nat
  | [] => 0
  | c :: cs => c.utf8Size + byteLength cs

@[simp] theorem byteLength_nil : byteLength [] = 0 := rfl

@[simp] theorem byteLength_cons (c : Char) (cs : List Char) :
    byteLength (c :: cs) = c.utf8Size + byteLength cs := rfl

/-- The byte offsets of the line feeds among `cs`, whose first character stands at `offset`. -/
def lineFeeds (offset : Nat) : List Char → List Nat
  | [] => []
  | c :: cs =>
    let rest := lineFeeds (offset + c.utf8Size) cs
    if c = '\n' then offset :: rest else rest

/-! ## Searching -/

/-- Where `p` stops holding between `lo` and `hi`, if it holds of a first part of the numbers there
and of none behind it. -/
def partitionPoint (xs : Array Nat) (p : Nat → Bool) (lo hi : Nat) (h : hi ≤ xs.size) : Nat :=
  if hlt : lo < hi then
    let mid := lo + (hi - lo) / 2
    have hmid : mid < hi := by omega
    if p xs[mid] then partitionPoint xs p (mid + 1) hi h
    else partitionPoint xs p lo mid (Nat.le_trans (Nat.le_of_lt hmid) h)
  else lo
termination_by hi - lo

theorem partitionPoint_le {xs : Array Nat} {p : Nat → Bool} {lo hi : Nat} {h : hi ≤ xs.size}
    (hlo : lo ≤ hi) : partitionPoint xs p lo hi h ≤ hi := by
  fun_induction partitionPoint xs p lo hi h with
  | case1 lo hi h hlt mid hmid _ ih => exact ih hmid
  | case2 lo hi h hlt mid hmid _ ih => exact Nat.le_trans (ih (by omega)) (Nat.le_of_lt hmid)
  | case3 lo hi h _ => exact hlo

/-! ## Places by offset -/

/-- A text and the byte offsets at which its lines begin. There is a first line in every text. -/
structure Lines where
  text : String
  starts : Array Nat
  nonempty : 0 < starts.size

namespace Lines

/-- The first line begins with the text, every other one behind a line feed. -/
def ofText (text : String) : Lines :=
  ⟨text, (0 :: (lineFeeds 0 text.toList).map (· + 1)).toArray, by simp⟩

/-- The number of the line that holds the byte at `offset`. -/
def lineAt (lines : Lines) (offset : Nat) : Nat :=
  partitionPoint lines.starts (· ≤ offset) 0 lines.starts.size (Nat.le_refl _)

theorem lineAt_le (lines : Lines) (offset : Nat) : lines.lineAt offset ≤ lines.starts.size :=
  partitionPoint_le (Nat.zero_le _)

/-- Where that line begins. -/
def lineStart (lines : Lines) (offset : Nat) : Nat :=
  have hline : lines.lineAt offset - 1 < lines.starts.size :=
    Nat.lt_of_le_of_lt (Nat.sub_le_sub_right (lines.lineAt_le offset) 1)
      (Nat.sub_lt lines.nonempty Nat.one_pos)
  lines.starts[lines.lineAt offset - 1]

/-- The place of the character at a byte offset. Its column counts the characters from the beginning
of the line. -/
def position (lines : Lines) (offset : Nat) : Position :=
  let before := String.Pos.Raw.extract lines.text ⟨lines.lineStart offset⟩ ⟨offset⟩
  ⟨lines.lineAt offset, before.length + 1⟩

end Lines

end ComputedField
