import ComputedField.Token.Scan
import Mathlib

/-!
# Lines and columns

The place of a character is told by what stands before it: one line more than there are line feeds,
and one column more than there are characters behind the last of these (`Position.behind`). The line
table says the same of byte offsets (`Lines.position_behind`), whatever bytes the characters take:
halving finds the last line that begins at or before the offset. A scan by offset is therefore the
scan that moves its place on character by character (`Scan.ofText_eq`).
-/

set_option autoImplicit false

namespace ComputedField

/-! ## Places by character -/

namespace Position

/-- The place after `c`. Only a line feed starts a new line. -/
def after (p : Position) (c : Char) : Position :=
  if c = '\n' then ⟨p.line + 1, 1⟩ else ⟨p.line, p.column + 1⟩

/-- The place after all of `cs`. -/
def advance (p : Position) (cs : List Char) : Position := cs.foldl after p

@[simp] theorem advance_nil (p : Position) : p.advance [] = p := rfl

@[simp] theorem advance_cons (p : Position) (c : Char) (cs : List Char) :
    p.advance (c :: cs) = (p.after c).advance cs := rfl

/-- The place behind some characters, by the line feeds among them and the characters behind the
last of these. -/
def behind (before : List Char) : Position :=
  ⟨1 + before.count '\n', 1 + (before.reverse.takeWhile (· != '\n')).length⟩

theorem behind_snoc (before : List Char) (c : Char) :
    behind (before ++ [c]) = (behind before).after c := by
  by_cases hc : c = '\n'
  · subst hc
    simp [behind, after, List.count_append, Nat.add_assoc]
  · have hcount : [c].count '\n' = 0 := List.count_eq_zero.mpr (by simpa [eq_comm] using hc)
    simp [behind, after, hc, List.count_append, hcount, Nat.add_assoc]

theorem advance_behind (before cs : List Char) :
    (behind before).advance cs = behind (before ++ cs) := by
  induction cs generalizing before with
  | nil => simp
  | cons c cs ih => rw [advance_cons, ← behind_snoc, ih, List.append_assoc, List.singleton_append]

/-- Each character before a place is worth one line or one column at most. -/
theorem behind_le (before : List Char) :
    (behind before).line + (behind before).column ≤ before.length + 2 := by
  induction before using List.reverseRecOn with
  | nil => rfl
  | append_singleton before c ih =>
    have hcolumn : 1 ≤ (behind before).column := Nat.le_add_right 1 _
    rw [behind_snoc, after, List.length_append, List.length_singleton]
    split
    · show (behind before).line + 1 + 1 ≤ _
      omega
    · show (behind before).line + ((behind before).column + 1) ≤ _
      omega

end Position

/-! ## Line feeds -/

theorem byteLength_eq (cs : List Char) : byteLength cs = String.utf8Len cs := by
  induction cs with
  | nil => rfl
  | cons c cs ih => rw [byteLength_cons, String.utf8Len_cons, ih, Nat.add_comm]

theorem byteLength_append (cs ds : List Char) :
    byteLength (cs ++ ds) = byteLength cs + byteLength ds := by
  simp only [byteLength_eq, String.utf8Len_append]

theorem byteLength_toList (text : String) : byteLength text.toList = text.utf8ByteSize := by
  rw [byteLength_eq, String.utf8Len_toList]

theorem lineFeeds_append (offset : ℕ) (cs ds : List Char) :
    lineFeeds offset (cs ++ ds) =
      lineFeeds offset cs ++ lineFeeds (offset + byteLength cs) ds := by
  induction cs generalizing offset with
  | nil => rfl
  | cons c cs ih =>
    simp only [List.cons_append, lineFeeds, ih, byteLength_cons, Nat.add_assoc]
    split <;> rfl

theorem length_lineFeeds (offset : ℕ) (cs : List Char) :
    (lineFeeds offset cs).length = cs.count '\n' := by
  induction cs generalizing offset with
  | nil => rfl
  | cons c cs ih =>
    by_cases hc : c = '\n'
    · simp [lineFeeds, hc, ih]
    · simp [lineFeeds, hc, ih]

/-- The line feeds of a run of characters lie within its bytes. -/
theorem lineFeeds_bounds {offset feed : ℕ} {cs : List Char} (h : feed ∈ lineFeeds offset cs) :
    offset ≤ feed ∧ feed < offset + byteLength cs := by
  induction cs generalizing offset with
  | nil => cases h
  | cons c cs ih =>
    have hsize := c.utf8Size_pos
    have htail (h : feed ∈ lineFeeds (offset + c.utf8Size) cs) :
        offset ≤ feed ∧ feed < offset + byteLength (c :: cs) := by
      obtain ⟨hlo, hhi⟩ := ih h
      rw [byteLength_cons]
      omega
    rw [lineFeeds] at h
    split at h
    · rcases List.mem_cons.mp h with rfl | h
      · rw [byteLength_cons]
        omega
      · exact htail h
    · exact htail h

/-! ## Halving -/

/-- If `p` holds of the numbers before the place `k` and of none from there on, the search ends at
`k`. -/
theorem partitionPoint_eq {xs : Array ℕ} {p : ℕ → Bool} {k lo hi : ℕ} {h : hi ≤ xs.size}
    (hlo : lo ≤ k) (hhi : k ≤ hi) (hbefore : ∀ i x, xs[i]? = some x → i < k → p x = true)
    (hbehind : ∀ i x, xs[i]? = some x → k ≤ i → p x = false) :
    partitionPoint xs p lo hi h = k := by
  fun_induction partitionPoint xs p lo hi h with
  | case1 lo hi h hlt mid hmid hp ih =>
    -- `p` holds in the middle, so `k` lies behind it
    refine ih (Nat.lt_of_not_le fun hle => ?_) hhi
    rw [hbehind mid _ (Array.getElem?_eq_getElem _) hle] at hp
    cases hp
  | case2 lo hi h hlt mid hmid hp ih =>
    refine ih hlo (Nat.le_of_not_lt fun hlt => ?_)
    exact hp (hbefore mid _ (Array.getElem?_eq_getElem _) hlt)
  | case3 lo hi h hle => omega

/-! ## The table -/

namespace Lines

variable {text : String} {before rest : List Char}

/-- The lines that begin among `before`, and those that begin behind it. -/
theorem starts_ofText (h : text.toList = before ++ rest) :
    (ofText text).starts.toList = (0 :: (lineFeeds 0 before).map (· + 1)) ++
      (lineFeeds (byteLength before) rest).map (· + 1) := by
  simp only [ofText, h, lineFeeds_append, Nat.zero_add, List.map_append, List.cons_append]

theorem lineAt_behind (h : text.toList = before ++ rest) :
    (ofText text).lineAt (byteLength before) = 1 + before.count '\n' := by
  have hstarts (i : ℕ) : (ofText text).starts[i]? = _ :=
    Array.getElem?_toList.symm.trans (congrArg (·[i]?) (starts_ofText h))
  have hlength : (0 :: (lineFeeds 0 before).map (· + 1)).length = 1 + before.count '\n' := by
    rw [List.length_cons, List.length_map, length_lineFeeds, Nat.add_comm]
  refine partitionPoint_eq (Nat.zero_le _) ?_ (fun i x hx hi => ?_) (fun i x hx hi => ?_)
  · rw [← Array.length_toList, starts_ofText h, List.length_append, hlength]
    exact Nat.le_add_right _ _
  · rw [hstarts, List.getElem?_append_left (hlength ▸ hi)] at hx
    rcases List.mem_cons.mp (List.mem_of_getElem? hx) with rfl | hx
    · exact decide_eq_true (Nat.zero_le _)
    · obtain ⟨feed, hfeed, rfl⟩ := List.mem_map.mp hx
      have hbounds := lineFeeds_bounds hfeed
      exact decide_eq_true (by omega)
  · rw [hstarts, List.getElem?_append_right (hlength ▸ hi)] at hx
    obtain ⟨feed, hfeed, rfl⟩ := List.mem_map.mp (List.mem_of_getElem? hx)
    have hbounds := lineFeeds_bounds hfeed
    exact decide_eq_false (by omega)

/-- The line that is begun last holds the characters that the column counts. -/
theorem exists_lastLine (before : List Char) :
    ∃ earlier line, before = earlier ++ line ∧
      ((lineFeeds 0 before).map (· + 1)).getLastD 0 = byteLength earlier ∧
      (Position.behind before).column = line.length + 1 := by
  induction before using List.reverseRecOn with
  | nil => exact ⟨[], [], rfl, rfl, rfl⟩
  | append_singleton before c ih =>
    obtain ⟨earlier, line, hsplit, hstart, hcolumn⟩ := ih
    rw [Position.behind_snoc, lineFeeds_append, List.map_append, Position.after]
    by_cases hc : c = '\n'
    · subst hc
      refine ⟨before ++ ['\n'], [], (List.append_nil _).symm, ?_, rfl⟩
      simp [lineFeeds, byteLength_append, Char.utf8Size]
    · refine ⟨earlier, line ++ [c], by rw [hsplit, List.append_assoc], ?_, ?_⟩
      · simpa [lineFeeds, hc] using hstart
      · rw [if_neg hc, List.length_append, hcolumn]
        rfl

theorem lineStart_behind (h : text.toList = before ++ rest) :
    (ofText text).lineStart (byteLength before) =
      ((lineFeeds 0 before).map (· + 1)).getLastD 0 := by
  have hget : (ofText text).starts[before.count '\n']? =
      some (((lineFeeds 0 before).map (· + 1)).getLastD 0) := by
    rw [← Array.getElem?_toList, starts_ofText h, ← length_lineFeeds 0, ← List.length_map (· + 1),
      List.getElem?_append_left (Nat.lt_succ_self _), List.getLastD_eq_getLast?,
      ← List.getLast?_cons, List.getLast?_eq_getElem?]
    rfl
  have hline : (ofText text).lineAt (byteLength before) - 1 = before.count '\n' := by
    rw [lineAt_behind h, Nat.add_sub_cancel_left]
  unfold lineStart
  simp only [hline]
  exact (Array.getElem?_eq_some_iff.mp hget).2

/-- **The table finds lines and columns.** Behind `before`, the place at the offset is one line more
than there are line feeds and one column more than there are characters in the last line. -/
theorem position_behind (h : text.toList = before ++ rest) :
    (ofText text).position (byteLength before) = .behind before := by
  obtain ⟨earlier, line, rfl, hstart, hcolumn⟩ := exists_lastLine before
  have htext : text = String.ofList (earlier ++ line ++ rest) := by rw [← h, String.ofList_toList]
  have hslice : String.Pos.Raw.extract text ⟨byteLength earlier⟩ ⟨byteLength (earlier ++ line)⟩ =
      String.ofList line := by
    rw [htext, byteLength_append, byteLength_eq, byteLength_eq, String.extract_of_valid]
  rw [position, lineAt_behind h, lineStart_behind h, hstart,
    show (ofText text).text = text from rfl, hslice, String.length_ofList, ← hcolumn]
  rfl

end Lines

/-! ## Scanning by character -/

namespace Scan

/-- Scans `cs`, whose first character stands at `pos`. -/
def fromPosition (pos : Position) (cs : List Char) : Scan :=
  match cs with
  | [] => ⟨[], pos⟩
  | c :: rest =>
    if isBlank c then fromPosition (pos.after c) rest
    else
      let piece := Piece.next c rest
      let tail := fromPosition (pos.advance piece.spelling) piece.rest
      ⟨(pos.report piece.content).map (⟨·, pos⟩) :: tail.items, tail.stop⟩
termination_by cs.length
decreasing_by
  · simp
  · have := Piece.length_next_rest c rest
    simp only [List.length_cons]
    omega

theorem stop_fromPosition (before cs : List Char) :
    (fromPosition (.behind before) cs).stop = .behind (before ++ cs) := by
  generalize hpos : Position.behind before = pos
  fun_induction fromPosition pos cs generalizing before with
  | case1 pos => rw [List.append_nil, hpos]
  | case2 pos c rest _ ih =>
    rw [ih (before ++ [c]) (by rw [Position.behind_snoc, hpos]), List.append_assoc,
      List.singleton_append]
  | case3 pos c rest _ piece tail ih =>
    rw [ih (before ++ piece.spelling) (by rw [← Position.advance_behind, hpos]), List.append_assoc,
      Piece.next_append]

theorem itemsFrom_eq {text : String} (before : List Char) {cs : List Char}
    (h : text.toList = before ++ cs) :
    itemsFrom (.ofText text) (byteLength before) cs = (fromPosition (.behind before) cs).items := by
  generalize hpos : Position.behind before = pos
  fun_induction fromPosition pos cs generalizing before with
  | case1 pos => rw [itemsFrom]
  | case2 pos c rest hblank ih =>
    have htext : text.toList = (before ++ [c]) ++ rest := by
      rw [h, List.append_assoc, List.singleton_append]
    rw [itemsFrom, if_pos hblank, ← ih _ htext (by rw [Position.behind_snoc, hpos]),
      byteLength_append]
    rfl
  | case3 pos c rest hblank piece tail ih =>
    have htext : text.toList = (before ++ piece.spelling) ++ piece.rest := by
      rw [h, List.append_assoc, Piece.next_append]
    have hrest := ih _ htext (by rw [← Position.advance_behind, hpos])
    rw [byteLength_append] at hrest
    rw [itemsFrom, if_neg hblank, Lines.position_behind h, hpos]
    exact congrArg (_ :: ·) hrest

/-- **Offsets and places agree.** A scan that counts bytes and asks the line table for every place
is the scan that moves its place on with every character. -/
theorem ofText_eq (text : String) : ofText text = fromPosition .start text.toList := by
  have hitems : itemsFrom (.ofText text) 0 text.toList = (fromPosition .start text.toList).items :=
    itemsFrom_eq [] (List.nil_append text.toList).symm
  have hstop : (Lines.ofText text).position text.utf8ByteSize =
      (fromPosition .start text.toList).stop := by
    rw [← byteLength_toList, Lines.position_behind (List.append_nil text.toList).symm]
    exact (stop_fromPosition [] text.toList).symm
  rw [ofText, hitems, hstop]

end Scan

end ComputedField
