/-!
# White space

The white space characters of the character standard, and trimming text of them. The blanks between
the tokens of a formula are a smaller set and not defined here.
-/

set_option autoImplicit false

namespace ComputedField.Text

/-- Every character with the white space property. -/
def isWhite (c : Char) : Bool :=
  let n := c.toNat
  (9 ≤ n && n ≤ 13) || n == 0x20 || n == 0x85 || n == 0xa0 || n == 0x1680
    || (0x2000 ≤ n && n ≤ 0x200a) || n == 0x2028 || n == 0x2029 || n == 0x202f || n == 0x205f
    || n == 0x3000

/-- `cs` without the white space at its end. -/
def trimEnd (cs : List Char) : List Char := (cs.reverse.dropWhile isWhite).reverse

/-- `cs` without the white space at both ends. -/
def trim (cs : List Char) : List Char := trimEnd (cs.dropWhile isWhite)

/-- `cs` without `suffix`, if it ends with it. -/
def dropSuffix? (suffix cs : List Char) : Option (List Char) :=
  if suffix.isSuffixOf cs then some (cs.take (cs.length - suffix.length)) else none

theorem length_trimEnd_le (cs : List Char) : (trimEnd cs).length ≤ cs.length := by
  have := (List.dropWhile_sublist (l := cs.reverse) isWhite).length_le
  simpa [trimEnd] using this

theorem append_of_dropSuffix? {suffix cs front : List Char}
    (h : dropSuffix? suffix cs = some front) : front ++ suffix = cs := by
  unfold dropSuffix? at h
  split at h
  · next hs =>
    obtain ⟨t, rfl⟩ := List.isSuffixOf_iff_suffix.mp hs
    simp at h
    rw [h]
  · cases h

/-- The two parts around the first `separator`. -/
def splitOnce? (separator : Char) (cs : List Char) : Option (List Char × List Char) :=
  if separator ∈ cs then
    some (cs.takeWhile (· != separator), (cs.dropWhile (· != separator)).drop 1)
  else none

end ComputedField.Text
