import ComputedField.Decimal.Basic
import ComputedField.Proofs.Token.Spelling

/-!
# Decimals in positional notation

What is read back from the digits that a decimal is written with: the decimal itself if it has
fractional digits, and otherwise the same number with one (`ofDigits?_plainDigits`).
-/

set_option autoImplicit false

namespace ComputedField

attribute [local instance (2000)] instPowNat

namespace Decimal

/-- The decimal that the positional notation of `n · 10 ^ (-scale)` says. There is always a digit
behind the point. -/
def ofPlain (n : Nat) (scale : Int) : Decimal :=
  if scale ≤ 0 then ⟨n * 10 ^ (-scale).toNat * 10, 1⟩ else ⟨n, scale⟩

theorem ofPlain_nonneg (n : Nat) (scale : Int) : 0 ≤ (ofPlain n scale).unscaled := by
  unfold ofPlain
  split
  · exact Int.mul_nonneg (Int.mul_nonneg (Int.natCast_nonneg n) (Int.pow_nonneg (by decide)))
      (by decide)
  · exact Int.natCast_nonneg n

theorem digitsValue_zeros_append (k : Nat) (cs : List Char) :
    digitsValue (List.replicate k '0' ++ cs) = digitsValue cs := by
  induction k with
  | zero => rfl
  | succ k ih =>
    rw [List.replicate_succ, List.cons_append, ← List.singleton_append, digitsValue_append, ih]
    simp [digitsValue, digitValue]

theorem digitsValue_append_zeros (k : Nat) (cs : List Char) :
    digitsValue (cs ++ List.replicate k '0') = digitsValue cs * 10 ^ k := by
  have hzeros := digitsValue_zeros_append k []
  rw [List.append_nil] at hzeros
  rw [digitsValue_append, hzeros, List.length_replicate]
  rfl

/-- Positional notation is a run of digits, the point, and a run of digits. -/
theorem plainDigits_eq (n : Nat) (scale : Int) :
    ∃ whole fraction : List Char, plainDigits n scale = whole ++ '.' :: fraction ∧
      whole ≠ [] ∧ fraction ≠ [] ∧ (∀ c ∈ whole ++ fraction, c.isDigit = true) ∧
      ofPlain n scale = ⟨digitsValue (whole ++ fraction), fraction.length⟩ := by
  unfold plainDigits ofPlain
  split
  · refine ⟨digitChars n ++ List.replicate (-scale).toNat '0', ['0'], rfl, ?_, by simp, ?_, ?_⟩
    · simp [digitChars_ne_nil]
    · intro c hc
      simp only [List.mem_append, List.mem_replicate, List.mem_singleton] at hc
      rcases hc with (hc | ⟨-, rfl⟩) | rfl
      · exact isDigit_of_mem_digitChars hc
      · rfl
      · rfl
    · rw [digitsValue_append, digitsValue_append_zeros, digitsValue_digitChars]
      simp [digitsValue, digitValue]
  · next hscale =>
    obtain ⟨places, hplaces⟩ : ∃ places : Nat, scale = places := ⟨scale.toNat, by omega⟩
    subst hplaces
    rw [Int.toNat_natCast]
    generalize hpadded : List.replicate (places + 1 - (digitChars n).length) '0' ++ digitChars n =
      padded
    have hlength : places + 1 ≤ padded.length := by
      rw [← hpadded, List.length_append, List.length_replicate]
      omega
    have hfraction : (padded.drop (padded.length - places)).length = places := by
      rw [List.length_drop]
      omega
    refine ⟨padded.take (padded.length - places), padded.drop (padded.length - places),
      by rw [← hpadded], ?_, ?_, ?_, ?_⟩
    · rw [← List.length_pos_iff, List.length_take]
      omega
    · rw [← List.length_pos_iff, hfraction]
      omega
    · rw [List.take_append_drop, ← hpadded]
      intro c hc
      rcases List.mem_append.mp hc with hc | hc
      · rw [(List.mem_replicate.mp hc).2]
        rfl
      · exact isDigit_of_mem_digitChars hc
    · rw [List.take_append_drop, hfraction, ← hpadded, digitsValue_zeros_append,
        digitsValue_digitChars]

/-- A run of digits with a point inside is read. -/
theorem ofDigits?_point {whole fraction : List Char} (hne : fraction ≠ [])
    (hdigits : ∀ c ∈ whole ++ fraction, c.isDigit = true) :
    ofDigits? (whole ++ '.' :: fraction) =
      some ⟨digitsValue (whole ++ fraction), fraction.length⟩ := by
  have hwhole : (whole ++ '.' :: fraction).takeWhile Char.isDigit = whole := by
    refine (takeWhile_append_of_head ?_ rfl).1
    exact List.all_eq_true.mpr fun c hc => hdigits c (List.mem_append_left _ hc)
  have hvalue : digitsValue? (whole ++ fraction) = some (digitsValue (whole ++ fraction)) :=
    if_pos ⟨by simp [hne], List.all_eq_true.mpr hdigits⟩
  have hempty : fraction.isEmpty = false := by simpa using hne
  simp only [ofDigits?, hwhole]
  rw [show (whole ++ '.' :: fraction).drop (whole.length + 1) = fraction by simp]
  simp [hempty, hvalue]

/-- A decimal is read back from its positional notation. -/
theorem ofDigits?_plainDigits (n : Nat) (scale : Int) :
    ofDigits? (plainDigits n scale) = some (ofPlain n scale) := by
  obtain ⟨whole, fraction, hplain, -, hfraction, hdigits, hvalue⟩ := plainDigits_eq n scale
  rw [hplain, hvalue]
  exact ofDigits?_point hfraction hdigits

theorem isNumber_plainDigits (n : Nat) (scale : Int) :
    isNumber 1 (String.ofList (plainDigits n scale)) = true := by
  obtain ⟨whole, fraction, hplain, hwhole, -, hdigits, -⟩ := plainDigits_eq n scale
  obtain ⟨c, cs, rfl⟩ := List.exists_cons_of_ne_nil hwhole
  have hpoint : '.' ∉ c :: cs ++ fraction := fun h => absurd (hdigits '.' h) (by decide)
  have hparts : (cs ++ '.' :: fraction).all isNumberPart = true := by
    rw [List.all_eq_true]
    intro d hd
    rcases List.mem_append.mp hd with hd | hd
    · rw [isNumberPart, hdigits d (by simp [hd])]
      rfl
    · rcases List.mem_cons.mp hd with rfl | hd
      · rfl
      · rw [isNumberPart, hdigits d (by simp [hd])]
        rfl
  have hcount : (c :: cs ++ '.' :: fraction).count '.' = 1 := by
    rw [List.mem_append, not_or] at hpoint
    rw [List.count_append, List.count_cons_self, List.count_eq_zero.mpr hpoint.1,
      List.count_eq_zero.mpr hpoint.2]
  rw [isNumber, hplain, String.toList_ofList, List.cons_append]
  simp only [hdigits c (by simp), hparts, List.cons_append ▸ hcount]
  rfl

/-- What is read is no negative number, and has fractional digits. -/
theorem ofDigits?_bounds {cs : List Char} {d : Decimal} (h : ofDigits? cs = some d) :
    0 ≤ d.unscaled ∧ 0 < d.scale := by
  unfold ofDigits? at h
  simp only [Option.bind_eq_bind, Option.bind_eq_some_iff] at h
  obtain ⟨n, -, h⟩ := h
  split at h
  · cases h
    refine ⟨Int.natCast_nonneg n, ?_⟩
    split
    · exact Int.one_pos
    · next hne => exact Int.natCast_pos.mpr (List.length_pos_iff.mpr (by simpa using hne))
  · cases h

theorem ofPlain_eq {d : Decimal} (hunscaled : 0 ≤ d.unscaled) (hscale : 0 < d.scale) :
    ofPlain d.unscaled.natAbs d.scale = d := by
  rw [ofPlain, if_neg (by omega), Int.natAbs_of_nonneg hunscaled]

theorem sameNumber_self (d : Decimal) : d.sameNumber d = true := by
  simp [sameNumber, compare]

theorem sameNumber_iff {a b : Decimal} :
    a.sameNumber b = true ↔ a.unscaledAt b.scale = b.unscaledAt a.scale := by
  rw [sameNumber, compare, beq_iff_eq, Std.compare_eq_iff_eq]

theorem sameNumber_neg {m n : Int} {s t : Int} (h : sameNumber ⟨m, s⟩ ⟨n, t⟩ = true) :
    sameNumber ⟨-m, s⟩ ⟨-n, t⟩ = true := by
  rw [sameNumber_iff] at h ⊢
  simp only [unscaledAt, Int.neg_mul] at h ⊢
  rw [h]

/-- The number is the same whatever its scale. -/
theorem sameNumber_ofPlain {d : Decimal} (h : 0 ≤ d.unscaled) :
    (ofPlain d.unscaled.natAbs d.scale).sameNumber d = true := by
  by_cases hscale : d.scale ≤ 0
  · obtain ⟨k, hk⟩ : ∃ k : Nat, d.scale = -k := ⟨(-d.scale).toNat, by omega⟩
    have hup : (1 - d.scale).toNat = k + 1 := by omega
    have hdown : (d.scale - 1).toNat = 0 := by omega
    have hzeros : (-d.scale).toNat = k := by omega
    rw [ofPlain, if_pos hscale, Int.natAbs_of_nonneg h]
    have hunscaled : unscaledAt ⟨d.unscaled * 10 ^ k * 10, 1⟩ d.scale = d.unscaledAt 1 := by
      rw [unscaledAt, unscaledAt, hup, hdown, Int.pow_zero, Int.mul_one, Int.mul_assoc, Int.pow_succ]
    rw [hzeros, sameNumber, compare, hunscaled]
    simp
  · rw [ofPlain_eq h (by omega)]
    exact sameNumber_self d

end Decimal

/-! ## Numbers that are scanned -/

theorem isDigit_of_isNumberPart {c : Char} (h : isNumberPart c = true) (hpoint : c ≠ '.') :
    c.isDigit = true := by
  simpa [isNumberPart, hpoint] using h

/-- A run of digits is a number. -/
theorem exists_digitsValue? {s : String} (h : isNumber 0 s = true) :
    ∃ n, digitsValue? s.toList = some n := by
  obtain ⟨c, cs, hs, hc, hcs, hpoints⟩ := isNumber_iff.mp h
  refine ⟨digitsValue s.toList, if_pos ⟨by simp [hs], ?_⟩⟩
  rw [hs, List.all_cons, hc, Bool.true_and, List.all_eq_true]
  intro d hd
  refine isDigit_of_isNumberPart (List.all_eq_true.mp hcs d hd) ?_
  rintro rfl
  exact absurd (List.mem_cons_of_mem c hd) (List.count_eq_zero.mp hpoints)

/-- A point with no digit behind it counts as one with a zero. -/
theorem ofDigits?_trailingPoint {whole : List Char} (hdigits : ∀ c ∈ whole, c.isDigit = true) :
    Decimal.ofDigits? (whole ++ ['.']) = Decimal.ofDigits? (whole ++ ['.', '0']) := by
  have hwhole (fraction : List Char) :
      (whole ++ '.' :: fraction).takeWhile Char.isDigit = whole :=
    (takeWhile_append_of_head (List.all_eq_true.mpr hdigits) rfl).1
  simp only [Decimal.ofDigits?, hwhole]
  simp

/-- A run of digits with a point in it is a decimal. -/
theorem exists_ofDigits? {s : String} (h : isNumber 1 s = true) :
    ∃ d, Decimal.ofDigits? s.toList = some d := by
  obtain ⟨c, cs, hs, hc, hcs, hpoints⟩ := isNumber_iff.mp h
  have hne : c ≠ '.' := by
    rintro rfl
    exact absurd hc (by decide)
  rw [List.count_cons_of_ne hne] at hpoints
  obtain ⟨tail, fraction, rfl⟩ :=
    List.append_of_mem (List.count_pos_iff.mp (by omega : 0 < cs.count '.'))
  rw [List.count_append, List.count_cons_self] at hpoints
  -- the point is the only one, so there are digits before and behind it
  have hdigits : ∀ d ∈ c :: tail ++ fraction, d.isDigit = true := by
    intro d hd
    rcases List.mem_cons.mp hd with rfl | hd
    · exact hc
    · refine isDigit_of_isNumberPart (List.all_eq_true.mp hcs d ?_) ?_
      · rcases List.mem_append.mp hd with hd | hd
        · exact List.mem_append_left _ hd
        · exact List.mem_append_right _ (List.mem_cons_of_mem _ hd)
      · rintro rfl
        rcases List.mem_append.mp hd with hd | hd
        · have := List.count_pos_iff.mpr hd
          omega
        · have := List.count_pos_iff.mpr hd
          omega
  rw [hs, ← List.cons_append]
  cases fraction with
  | nil =>
    rw [ofDigits?_trailingPoint fun d hd => hdigits d (List.mem_append_left _ hd)]
    refine ⟨_, Decimal.ofDigits?_point (List.cons_ne_nil _ _) fun d hd => ?_⟩
    rcases List.mem_append.mp hd with hd | hd
    · exact hdigits d (List.mem_append_left _ hd)
    · rw [List.mem_singleton.mp hd]
      rfl
  | cons d fraction => exact ⟨_, Decimal.ofDigits?_point (List.cons_ne_nil _ _) hdigits⟩

end ComputedField
