/-!
# Decimal digits of natural numbers

`digitCount` is the number of decimal digits (`10 ^ (digitCount n - 1) ≤ n < 10 ^ digitCount n`
for a positive `n`), `stripZeros` removes the trailing zeros, `digitsValue?` reads a run of digits,
and `digitChars` writes one: `digitsValue? (digitChars n) = some n`.
-/

set_option autoImplicit false

namespace ComputedField

-- Powers of numbers are the ones that compute, also where algebra brings others of the same value.
attribute [local instance (2000)] instPowNat

/-! ## Counting digits -/

/-- The least `j ≥ k` with `n < 10 ^ j`. -/
def digitsFrom (n k : Nat) : Nat :=
  if n < 10 ^ k then k else digitsFrom n (k + 1)
termination_by n - k
decreasing_by
  have : k < 10 ^ k := Nat.lt_pow_self (by decide)
  omega

/-- The number of decimal digits of `n`; zero has one.

The count of binary digits gives a first guess that is hardly ever off, so that a number of a
million digits is counted with two or three powers of ten. A wrong guess costs time only. -/
def digitCount (n : Nat) : Nat :=
  let guess := n.log2 * 30102999 / 100000000
  if 10 ^ guess ≤ n then digitsFrom n (guess + 1) else digitsFrom n 1

theorem le_digitsFrom (n k : Nat) : k ≤ digitsFrom n k := by
  fun_induction digitsFrom n k with
  | case1 => exact Nat.le_refl _
  | case2 k _ ih => omega

theorem lt_pow_digitsFrom (n k : Nat) : n < 10 ^ digitsFrom n k := by
  fun_induction digitsFrom n k with
  | case1 k h => exact h
  | case2 k _ ih => exact ih

theorem pow_digitsFrom_le (n k : Nat) (h : 10 ^ k ≤ n) : 10 ^ (digitsFrom n (k + 1) - 1) ≤ n := by
  generalize hj : k + 1 = j
  fun_induction digitsFrom n j generalizing k with
  | case1 j _ => simpa [← hj] using h
  | case2 j hn ih => exact ih j (by omega) rfl

theorem digitCount_pos (n : Nat) : 0 < digitCount n := by
  unfold digitCount
  have h₁ := le_digitsFrom n (n.log2 * 30102999 / 100000000 + 1)
  have h₂ := le_digitsFrom n 1
  simp only
  split <;> omega

theorem lt_pow_digitCount (n : Nat) : n < 10 ^ digitCount n := by
  unfold digitCount
  simp only
  split <;> exact lt_pow_digitsFrom _ _

theorem pow_digitCount_le {n : Nat} (h : 0 < n) : 10 ^ (digitCount n - 1) ≤ n := by
  unfold digitCount
  simp only
  split
  · next hg => exact pow_digitsFrom_le _ _ hg
  · exact pow_digitsFrom_le n 0 (by simp; omega)

/-! ## Trailing zeros -/

/-- `n` without its trailing zeros, and how many there were. Zero has none. -/
def stripZeros (n : Nat) : Nat × Nat :=
  if n ≠ 0 ∧ n % 10 = 0 then
    let (m, k) := stripZeros (n / 10)
    (m, k + 1)
  else (n, 0)
termination_by n
decreasing_by omega

theorem stripZeros_eq (n : Nat) : (stripZeros n).1 * 10 ^ (stripZeros n).2 = n := by
  fun_induction stripZeros n with
  | case1 n h m k hs ih =>
    rw [hs] at ih
    simp only at ih ⊢
    rw [Nat.pow_succ, ← Nat.mul_assoc, ih]
    omega
  | case2 n h => simp

/-! ## Reading digits -/

/-- The value of a digit character. -/
def digitValue (c : Char) : Nat := c.toNat - '0'.toNat

/-- The number that a run of digits denotes. -/
def digitsValue (cs : List Char) : Nat := cs.foldl (fun n c => n * 10 + digitValue c) 0

/-- The number that a non-empty run of digits denotes. -/
def digitsValue? (cs : List Char) : Option Nat :=
  if cs ≠ [] ∧ cs.all Char.isDigit then some (digitsValue cs) else none

theorem foldl_digitValue (cs : List Char) (n : Nat) :
    cs.foldl (fun n c => n * 10 + digitValue c) n = n * 10 ^ cs.length + digitsValue cs := by
  induction cs generalizing n with
  | nil => simp [digitsValue]
  | cons c cs ih =>
    have h := ih (0 * 10 + digitValue c)
    simp only [digitsValue, List.foldl_cons, List.length_cons] at h ⊢
    rw [ih, h, Nat.pow_succ, Nat.add_mul, Nat.zero_mul, Nat.zero_add, Nat.add_assoc,
      Nat.mul_assoc, Nat.mul_comm 10]
    rfl

theorem digitsValue_append (cs ds : List Char) :
    digitsValue (cs ++ ds) = digitsValue cs * 10 ^ ds.length + digitsValue ds := by
  unfold digitsValue
  rw [List.foldl_append, foldl_digitValue]
  rfl

/-! ## Writing digits -/

/-- The last `2 ^ k` digits of `n`, with zeros in front. Both halves are written by themselves, so
that a long number is never divided digit by digit. -/
def splitDigits : Nat → Nat → List Char
  | 0, n => [Nat.digitChar (n % 10)]
  | k + 1, n => splitDigits k (n / 10 ^ (2 ^ k : Nat)) ++ splitDigits k (n % 10 ^ (2 ^ k : Nat))

/-- Enough halvings for all digits of `n`: there is a digit for every three binary digits at
most. -/
def digitDepth (n : Nat) : Nat := (n.log2 / 3 + 1).log2 + 1

/-- The decimal digits of `n`, without zeros in front. -/
def digitChars (n : Nat) : List Char :=
  match (splitDigits (digitDepth n) n).dropWhile (· == '0') with
  | [] => ['0']
  | cs => cs

theorem digitValue_digitChar {n : Nat} (h : n < 10) : digitValue (Nat.digitChar n) = n := by
  match n, h with
  | 0, _ | 1, _ | 2, _ | 3, _ | 4, _ | 5, _ | 6, _ | 7, _ | 8, _ | 9, _ => rfl

theorem isDigit_digitChar {n : Nat} (h : n < 10) : (Nat.digitChar n).isDigit = true := by
  match n, h with
  | 0, _ | 1, _ | 2, _ | 3, _ | 4, _ | 5, _ | 6, _ | 7, _ | 8, _ | 9, _ => rfl

theorem length_splitDigits (k n : Nat) : (splitDigits k n).length = 2 ^ k := by
  induction k generalizing n with
  | zero => rfl
  | succ k ih =>
    simp only [splitDigits, List.length_append, ih]
    omega

theorem isDigit_of_mem_splitDigits {k n : Nat} {c : Char} (h : c ∈ splitDigits k n) :
    c.isDigit = true := by
  induction k generalizing n with
  | zero =>
    obtain rfl := List.mem_singleton.mp h
    exact isDigit_digitChar (Nat.mod_lt n (by decide))
  | succ k ih =>
    rcases List.mem_append.mp h with h | h
    · exact ih h
    · exact ih h

theorem digitsValue_splitDigits (k n : Nat) :
    digitsValue (splitDigits k n) = n % 10 ^ (2 ^ k : Nat) := by
  induction k generalizing n with
  | zero =>
    have := digitValue_digitChar (Nat.mod_lt n (by decide : 0 < 10))
    simpa [splitDigits, digitsValue] using this
  | succ k ih =>
    have hp : 10 ^ (2 ^ (k + 1) : Nat) = 10 ^ (2 ^ k : Nat) * 10 ^ (2 ^ k : Nat) := by
      rw [← Nat.pow_add, Nat.pow_succ, Nat.mul_two]
    rw [splitDigits, digitsValue_append, length_splitDigits, ih, ih, Nat.mod_mod, hp,
      Nat.mod_mul, Nat.add_comm, Nat.mul_comm]

theorem digitsValue_dropWhile_zero (cs : List Char) :
    digitsValue (cs.dropWhile (· == '0')) = digitsValue cs := by
  induction cs with
  | nil => rfl
  | cons c cs ih =>
    rw [List.dropWhile_cons]
    split
    · next h =>
      obtain rfl := eq_of_beq h
      rw [ih]
      simp [digitsValue, digitValue]
    · rfl

theorem lt_pow_digitDepth (n : Nat) : n < 10 ^ (2 ^ digitDepth n : Nat) := by
  have h₁ : n < 2 ^ (n.log2 + 1) := Nat.lt_log2_self
  have h₂ : n.log2 / 3 + 1 < 2 ^ digitDepth n := Nat.lt_log2_self
  have h₃ : 2 ^ (n.log2 + 1) ≤ 2 ^ (3 * (n.log2 / 3 + 1)) :=
    Nat.pow_le_pow_right (by decide) (by omega)
  have h₄ : 2 ^ (3 * (n.log2 / 3 + 1)) = 8 ^ (n.log2 / 3 + 1) := by
    rw [Nat.pow_mul]
  have h₅ : 8 ^ (n.log2 / 3 + 1) ≤ 10 ^ (n.log2 / 3 + 1) := Nat.pow_le_pow_left (by decide) _
  have h₆ : 10 ^ (n.log2 / 3 + 1) ≤ 10 ^ (2 ^ digitDepth n : Nat) :=
    Nat.pow_le_pow_right (by decide) (by omega)
  omega

theorem digitChars_ne_nil (n : Nat) : digitChars n ≠ [] := by
  unfold digitChars
  split
  · simp
  · next h => exact h

theorem isDigit_of_mem_digitChars {n : Nat} {c : Char} (h : c ∈ digitChars n) :
    c.isDigit = true := by
  unfold digitChars at h
  split at h
  · obtain rfl := List.mem_singleton.mp h
    rfl
  · exact isDigit_of_mem_splitDigits ((List.dropWhile_sublist _).subset h)

theorem digitsValue_digitChars (n : Nat) : digitsValue (digitChars n) = n := by
  have h := digitsValue_dropWhile_zero (splitDigits (digitDepth n) n)
  rw [digitsValue_splitDigits, Nat.mod_eq_of_lt (lt_pow_digitDepth n)] at h
  unfold digitChars
  split
  · next hnil =>
    rw [hnil] at h
    exact h
  · exact h

/-- A number is read back from its digits. -/
theorem digitsValue?_digitChars (n : Nat) : digitsValue? (digitChars n) = some n := by
  unfold digitsValue?
  rw [if_pos ⟨digitChars_ne_nil n, List.all_eq_true.mpr fun _ => isDigit_of_mem_digitChars⟩,
    digitsValue_digitChars]

/-- `n` in decimal digits, with a minus sign if it is negative. -/
def integerText (n : Int) : String :=
  (if n < 0 then "-" else "") ++ String.ofList (digitChars n.natAbs)

end ComputedField
