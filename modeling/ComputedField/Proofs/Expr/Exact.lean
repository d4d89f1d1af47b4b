import ComputedField.Proofs.Expr.ReadComplete
import Mathlib

/-!
# Exactness of the reader

A text is read as the trees that its tokens make up in the grammar, and these differ in their tokens
only (`ofText_exact`).
-/

set_option autoImplicit false

namespace ComputedField

namespace RawExpr

variable (stop : Position) {ts mid : List Item} {e : RawExpr}

theorem reads_of_derives_assignment {ls : List Lexeme}
    (h : Derives Precedence.assignment ls e) (hts : Spells ts ls mid)
    (hstop : Stops Precedence.assignment mid) :
    ∃ u, u.bare = e.bare ∧ Reads (readAssignment stop ts) u mid :=
  reads_of_finds (finds_of_derives h (Nat.le_refl _) hts) hstop

/-- Statements with semicolons between them are read up to the last item. -/
theorem readStatements_of_parts {parts : List (List Lexeme × RawExpr)} (hne : parts ≠ [])
    (hparts : ∀ p ∈ parts, Derives Precedence.assignment p.1 p.2)
    (hts : Spells ts ([.mark .semicolon].intercalate (parts.map Prod.fst)) []) :
    ∃ first others, readStatements stop ts = .ok (first, others) ∧
      first.bare :: others.map (·.2.bare) = parts.map (·.2.bare) := by
  induction parts generalizing ts with
  | nil => exact absurd rfl hne
  | cons p parts ih =>
    have hp := hparts p List.mem_cons_self
    cases parts with
    | nil =>
      rw [List.map_singleton, List.intercalate_singleton] at hts
      have hstop : Stops Precedence.assignment [] := fun item hitem => by cases hitem
      obtain ⟨u, hu, h₁, hread⟩ := reads_of_derives_assignment stop hp hts hstop
      refine ⟨u, [], ?_, congrArg ([·]) hu⟩
      rw [readStatements, hread]
      rfl
    | cons q parts =>
      rw [List.map_cons, List.map_cons, List.intercalate_cons_cons, List.append_assoc] at hts
      obtain ⟨mid₁, hls, hts⟩ := hts.of_append
      obtain ⟨t, ts₂, rfl, ht, hts⟩ := hts.of_cons
      obtain ⟨u, hu, h₁, hread⟩ :=
        reads_of_derives_assignment stop hp hls (.cons ht (by decide))
      obtain ⟨first, others, hmore, hothers⟩ :=
        ih (List.cons_ne_nil _ _) (fun r hr => hparts r (List.mem_cons_of_mem p hr)) hts
      have htake : takeIf (Lexeme.isMark .semicolon) (.ok t :: ts₂) = _ :=
        takeIf_some (Lexeme.isMark_eq_some (u := ()).mpr ht)
      refine ⟨u, (t, first) :: others, ?_, ?_⟩
      · rw [readStatements, hread]
        simp only [ok_bind, htake, hmore, pure_eq_ok]
      · rw [List.map_cons, List.map_cons, hothers, hu]

/-- Lexemes that make up a tree are read as this tree. -/
theorem readStatements_of_derives {ls : List Lexeme} (h : Derives Precedence.sequence ls e)
    (hts : Spells ts ls []) :
    ∃ first others, readStatements stop ts = .ok (first, others) ∧
      (ofStatements first others).bare = e.bare := by
  rcases h.statements with h | ⟨tag, parts, hlength, hparts, rfl, rfl⟩
  · have hpart : ∀ p ∈ [(ls, e)], Derives Precedence.assignment p.1 p.2 := by
      intro p hp
      rw [List.mem_singleton.mp hp]
      exact h
    obtain ⟨first, others, hread, hbare⟩ :=
      readStatements_of_parts stop (List.cons_ne_nil _ _) hpart
        (by rwa [List.map_singleton, List.intercalate_singleton])
    refine ⟨first, others, hread, ?_⟩
    cases others with
    | nil => exact (List.cons.inj hbare).1
    | cons other others => cases (List.cons.inj hbare).2
  · have hne : parts ≠ [] := by
      rintro rfl
      exact absurd hlength (by decide)
    obtain ⟨first, others, hread, hbare⟩ := readStatements_of_parts stop hne hparts hts
    refine ⟨first, others, hread, ?_⟩
    cases others with
    | nil =>
      have := congrArg List.length hbare
      simp only [List.map_nil, List.length_cons, List.length_nil, List.length_map] at this
      omega
    | cons other others =>
      rw [ofStatements, Expr.bare_sequence, Expr.bare_sequence]
      refine congrArg (Expr.sequence default) ?_
      rw [List.map_cons, List.map_map, List.map_map]
      exact hbare

/-- A text is read as a tree that its tokens derive. -/
theorem ofText_of_derives {text : String} {tokens : List Token}
    (htokens : tokenize text = .ok tokens)
    (h : Derives Precedence.sequence (tokens.map Token.lexeme) e) :
    ∃ u, ofText text = .ok u ∧ u.bare = e.bare := by
  have hitems : Spells (Scan.ofText text).items (tokens.map Token.lexeme) [] :=
    ⟨tokens, by rw [List.append_nil, Scan.tokens_eq_ok.mp htokens], rfl⟩
  obtain ⟨first, others, hread, hbare⟩ :=
    readStatements_of_derives (Scan.ofText text).stop h hitems
  refine ⟨ofStatements first others, ?_, hbare⟩
  rw [ofText, ofScan, hread]
  rfl

/-- Two trees that the same lexemes make up differ in their tokens only: the reader finds both. -/
theorem bare_eq_of_derives {ls : List Lexeme} {e e' : RawExpr}
    (h : Derives Precedence.sequence ls e) (h' : Derives Precedence.sequence ls e') :
    e.bare = e'.bare := by
  -- positions are of no account to the grammar: any tokens with these lexemes will do
  have hts : Spells (ls.map fun l => .ok ⟨l, .start⟩) ls [] :=
    ⟨ls.map (⟨·, .start⟩), by simp, by rw [List.map_map]; exact List.map_id ls⟩
  obtain ⟨first, others, hread, hbare⟩ := readStatements_of_derives .start h hts
  obtain ⟨first', others', hread', hbare'⟩ := readStatements_of_derives .start h' hts
  obtain ⟨rfl, rfl⟩ := Prod.mk.inj (Except.ok.inj (hread.symm.trans hread'))
  exact hbare.symm.trans hbare'

/-- **The reader is exact.** A text with tokens is read as a tree, up to the tokens that the nodes
keep, if and only if its tokens make up the tree in the grammar; and no row of lexemes makes up two
trees. -/
theorem ofText_exact :
    (∀ text tokens, tokenize text = .ok tokens → ∀ tree : RawExpr,
      (∃ u, ofText text = .ok u ∧ u.bare = tree.bare) ↔
        Derives Precedence.sequence (tokens.map Token.lexeme) tree) ∧
    ∀ ls tree tree', Derives Precedence.sequence ls tree → Derives Precedence.sequence ls tree' →
      tree.bare = tree'.bare := by
  refine ⟨fun text tokens htokens tree => ⟨?_, ofText_of_derives htokens⟩,
    fun ls tree tree' => bare_eq_of_derives⟩
  rintro ⟨u, hread, hbare⟩
  obtain ⟨tokens', htokens', hderives⟩ := derives_of_ofText hread
  obtain rfl := Except.ok.inj (htokens.symm.trans htokens')
  exact hderives.of_bare hbare.symm

/-- Two signs in a row group to the left. -/
theorem ofText_exact_subtract :
    Derives Precedence.sequence
      [.identifier "a", .mark .minus, .identifier "b", .mark .minus, .integer "1"]
      (.binary default .subtract
        (.binary default .subtract (.var default "a") (.var default "b"))
        (.literal default (.integer 1))) :=
  (ofText_exact.1 "a - b-1"
    [⟨.identifier "a", ⟨1, 1⟩⟩, ⟨.mark .minus, ⟨1, 3⟩⟩, ⟨.identifier "b", ⟨1, 5⟩⟩,
      ⟨.mark .minus, ⟨1, 6⟩⟩, ⟨.integer "1", ⟨1, 7⟩⟩] (by cbv) _).mp ⟨_, by cbv, by cbv⟩

end RawExpr

end ComputedField
