import ComputedField.Environment.Library
import Mathlib

/-!
# Parts of strings

The standard function `substring` takes characters by their positions and clips at the end of the
string, as long as a machine word holds both of its numbers (`Library.IsSize`). So a string is any
beginning of it and the rest, and `length` tells how much is taken (`substring_clips`). It does not
clip numbers beyond that: they give null, like negative ones (`substring_oversized`).
-/

set_option autoImplicit false

namespace ComputedField

namespace Library

/-- A word of 64 bits holds the number, without a sign. -/
def IsSize (n : ℤ) : Prop := 0 ≤ n ∧ n < 2 ^ (64 : ℕ)

variable {n start count : ℤ} (s : String)

theorem count?_of_isSize (h : IsSize n) : count? n = some n.toNat := if_pos h

theorem count?_of_not_isSize (h : ¬ IsSize n) : count? n = none := if_neg h

/-- The characters from `start` on, `count` at most. -/
def taken (s : String) (start count : ℤ) : String :=
  String.ofList ((s.toList.drop start.toNat).take count.toNat)

theorem substring_of_isSize (hstart : IsSize start) (hcount : IsSize count) :
    substring [.string s, .integer start, .integer count] = .string (taken s start count) := by
  simp only [substring, count?_of_isSize hstart, count?_of_isSize hcount, taken]

theorem substring_of_not_isSize (h : ¬ (IsSize start ∧ IsSize count)) :
    substring [.string s, .integer start, .integer count] = .null := by
  by_cases hstart : IsSize start
  · have hcount : ¬ IsSize count := fun hcount => h ⟨hstart, hcount⟩
    simp only [substring, count?_of_isSize hstart, count?_of_not_isSize hcount]
  · simp only [substring, count?_of_not_isSize hstart]

/-- The character at a position of the part stands `start` positions further in the whole. -/
theorem getElem?_taken (hstart : 0 ≤ start) (i : ℕ) :
    (taken s start count).toList[i]? =
      if (i : ℤ) < count then s.toList[(start + i).toNat]? else none := by
  have hindex : start.toNat + i = (start + i).toNat := by omega
  rw [taken, String.toList_ofList, List.getElem?_take, List.getElem?_drop, hindex]
  exact if_congr (by omega) rfl rfl

theorem length_taken (hstart : 0 ≤ start) (hcount : 0 ≤ count) :
    ((taken s start count).length : ℤ) = min count (max 0 (s.length - start)) := by
  rw [taken, String.length_ofList, List.length_take, List.length_drop, String.length_toList]
  omega

/-- A beginning, and what follows it up to the end. -/
theorem taken_append_taken (k : ℤ) :
    taken s 0 k ++ taken s k s.length = s := by
  have hrest : (s.toList.drop k.toNat).length ≤ (s.length : ℤ).toNat := by
    rw [List.length_drop, String.length_toList]
    omega
  rw [taken, taken, ← String.ofList_append, List.take_of_length_le hrest, Int.toNat_zero,
    List.drop_zero, List.take_append_drop, String.ofList_toList]

end Library

/-! ## Calls -/

namespace Environment

variable {σ : Type} (host : σ)

/-- A call of the standard function `substring`. -/
def callSubstring (s : String) (start count : ℤ) (host : σ) : Except NoSuchFunction (Value × σ) :=
  standard.invoke "substring" [some .string, some .integer, some .integer]
    [.string s, .integer start, .integer count] host

/-- A call of the standard function `length`. -/
def callLength (s : String) (host : σ) : Except NoSuchFunction (Value × σ) :=
  standard.invoke "length" [some .string] [.string s] host

theorem callSubstring_eq (s : String) (start count : ℤ) : callSubstring s start count host =
    .ok (Library.substring [.string s, .integer start, .integer count], host) := rfl

theorem callLength_eq (s : String) : callLength s host = .ok (.integer s.length, host) := rfl

open Library

/-- **`substring` clips, and fits together with `length`.** Let a word of 64 bits hold both numbers.
Then the part has the character of the string at position `start + i` at its own position `i`, for
every `i` below `count` up to the end of the string, and nothing else; so its length is `count` or
what is left behind `start`. With any other number the call gives null. A string that is not too
long for a machine is its first `k` characters and those from `k` on, as many as `length` gives. -/
theorem substring_clips (s : String) :
    (∀ start count : ℤ, IsSize start → IsSize count → ∃ part : String,
      callSubstring s start count host = .ok (.string part, host) ∧
      (∀ i : ℕ, part.toList[i]? =
        if (i : ℤ) < count then s.toList[(start + i).toNat]? else none) ∧
      callLength part host = .ok (.integer (min count (max 0 (s.length - start))), host)) ∧
    (∀ start count : ℤ, ¬ (IsSize start ∧ IsSize count) →
      callSubstring s start count host = .ok (.null, host)) ∧
    (s.length < 2 ^ (64 : ℕ) → ∀ k : ℤ, IsSize k → ∃ (n : ℤ) (front back : String),
      callLength s host = .ok (.integer n, host) ∧
      callSubstring s 0 k host = .ok (.string front, host) ∧
      callSubstring s k n host = .ok (.string back, host) ∧ front ++ back = s) := by
  refine ⟨fun start count hstart hcount => ?_, fun start count h => ?_, fun hs k hk => ?_⟩
  · refine ⟨taken s start count, ?_, getElem?_taken s hstart.1, ?_⟩
    · rw [callSubstring_eq, substring_of_isSize s hstart hcount]
    · rw [callLength_eq, length_taken s hstart.1 hcount.1]
  · rw [callSubstring_eq, substring_of_not_isSize s h]
  · have hzero : IsSize 0 := ⟨le_refl 0, by norm_num⟩
    have hlength : IsSize s.length := ⟨Int.natCast_nonneg _, by exact_mod_cast hs⟩
    refine ⟨s.length, taken s 0 k, taken s k s.length, callLength_eq host s, ?_, ?_,
      taken_append_taken s k⟩
    · rw [callSubstring_eq, substring_of_isSize s hzero hk]
    · rw [callSubstring_eq, substring_of_isSize s hk hlength]

/-- Characters count, not bytes, and the largest number that a word holds is clipped. -/
theorem substring_clips_accents :
    callSubstring "héllo" 1 (2 ^ (64 : ℕ) - 1) () = .ok (.string "éllo", ()) ∧
      callLength "éllo" () = .ok (.integer 4, ()) ∧
      callSubstring "héllo" (-1) 2 () = .ok (.null, ()) ∧
      ∃ n front back, callLength "héllo" () = .ok (.integer n, ()) ∧
        callSubstring "héllo" 0 2 () = .ok (.string front, ()) ∧
        callSubstring "héllo" 2 n () = .ok (.string back, ()) ∧ front ++ back = "héllo" := by
  obtain ⟨hpart, hnull, hjoin⟩ := substring_clips () "héllo"
  obtain ⟨part, hcall, -, hlength⟩ := hpart 1 (2 ^ (64 : ℕ) - 1)
    ⟨by norm_num, by norm_num⟩ ⟨by norm_num, by norm_num⟩
  have hvalue : callSubstring "héllo" 1 (2 ^ (64 : ℕ) - 1) () = .ok (.string "éllo", ()) := rfl
  have hsame := Except.ok.inj (hcall.symm.trans hvalue)
  obtain rfl : part = "éllo" := by simpa using hsame
  exact ⟨hcall, hlength, hnull (-1) 2 fun h => absurd h.1.1 (by norm_num),
    hjoin (by decide) 2 ⟨by norm_num, by norm_num⟩⟩

/-- A count that no word holds is not clipped, where the one before it is. -/
theorem substring_oversized :
    callSubstring "abc" 0 (2 ^ (64 : ℕ) - 1) () = .ok (.string "abc", ()) ∧
      callSubstring "abc" 0 (2 ^ (64 : ℕ)) () = .ok (.null, ()) ∧
      ¬ ∃ part, callSubstring "abc" 0 (2 ^ (64 : ℕ)) () = .ok (.string part, ()) := by
  have hnull : callSubstring "abc" 0 (2 ^ (64 : ℕ)) () = .ok (.null, ()) := rfl
  refine ⟨rfl, hnull, ?_⟩
  rintro ⟨part, hpart⟩
  rw [hnull] at hpart
  cases hpart

end Environment

end ComputedField
