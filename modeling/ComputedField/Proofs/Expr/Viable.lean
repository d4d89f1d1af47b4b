import ComputedField.Proofs.Expr.Prompt

/-!
# The grammar is prompt

`Sentence` tells which rows of lexemes make up an expression, whatever the tree. From the items of
a text every function of the grammar takes such a row, or fails where what it took can still be
completed to one (`readsPromptly`, `failsAt_statements`).
-/

set_option autoImplicit false

namespace ComputedField

/-! ## Rows of lexemes that make up something -/

/-- Expressions of the level, at least one, with `separator` between them. -/
def SentenceRow (separator : Mark) (level : Nat) (ls : List Lexeme) : Prop :=
  ∃ parts : List (List Lexeme × RawExpr), parts ≠ [] ∧ (∀ p ∈ parts, Derives level p.1 p.2) ∧
    ls = [.mark separator].intercalate (parts.map Prod.fst)

/-- Arguments, at least one, and the closing parenthesis. -/
def SentenceArguments (ls : List Lexeme) : Prop :=
  ∃ row, SentenceRow .comma Precedence.conditional row ∧ ls = row ++ [.mark .rightParen]

/-- Statements, at least one. -/
abbrev SentenceStatements : List Lexeme → Prop := SentenceRow .semicolon Precedence.assignment

/-- What stands for a missing expression. -/
def filler : Lexeme := .string ""

namespace Sentence

variable {level tight : Nat} {ls cs xs ys : List Lexeme}

theorem completes (h : Sentence level ls) : Completes (Sentence level) ls := .self h

theorem loosen (h : Sentence tight ls) (hle : level ≤ tight) (htight : tight ≤ Precedence.primary) :
    Sentence level ls := by
  obtain ⟨e, he⟩ := h
  exact ⟨e, he.loosen hle htight⟩

theorem filler (hlevel : level ≤ Precedence.primary) : Sentence level [filler] :=
  loosen ⟨.literal default (.string ""), .string⟩ hlevel (Nat.le_refl _)

theorem assignment (hx : Sentence Precedence.conditional xs)
    (hy : Sentence Precedence.assignment ys) :
    Sentence Precedence.assignment (xs ++ .mark .assign :: ys) := by
  obtain ⟨x, hx⟩ := hx
  obtain ⟨y, hy⟩ := hy
  exact ⟨.assignment default x y, .assignment hx hy⟩

theorem conditional (hc : Sentence Precedence.boolean cs) (hx : Sentence Precedence.conditional xs)
    (hy : Sentence Precedence.conditional ys) :
    Sentence Precedence.conditional (cs ++ .mark .question :: (xs ++ .mark .colon :: ys)) := by
  obtain ⟨c, hc⟩ := hc
  obtain ⟨x, hx⟩ := hx
  obtain ⟨y, hy⟩ := hy
  exact ⟨.conditional default c x y, .conditional hc hx hy⟩

theorem chain {op : BinaryOp} (hpower : op ≠ .power) (hconcat : op ≠ .concat)
    (hx : Sentence op.precedence xs) (hy : Sentence (op.precedence + 1) ys) :
    Sentence op.precedence (xs ++ .mark op.mark :: ys) := by
  obtain ⟨x, hx⟩ := hx
  obtain ⟨y, hy⟩ := hy
  exact ⟨.binary default op x y, .chain hpower hconcat hx hy⟩

theorem power (hx : Sentence Precedence.unary xs) (hy : Sentence Precedence.power ys) :
    Sentence Precedence.power (xs ++ .mark .caret :: ys) := by
  obtain ⟨x, hx⟩ := hx
  obtain ⟨y, hy⟩ := hy
  exact ⟨.binary default .power x y, .power hx hy⟩

theorem sign {op : UnaryOp} {m : Mark} (hop : op.mark? = some m)
    (hx : Sentence Precedence.primary xs) : Sentence Precedence.unary (.mark m :: xs) := by
  obtain ⟨x, hx⟩ := hx
  exact ⟨.unary default op x, .sign hop hx⟩

theorem element (hx : Sentence Precedence.primary xs) (hy : Sentence Precedence.conditional ys) :
    Sentence Precedence.primary
      (xs ++ .mark .leftBracket :: (ys ++ [.mark .rightBracket])) := by
  obtain ⟨x, hx⟩ := hx
  obtain ⟨y, hy⟩ := hy
  exact ⟨.element default x y, .element hx hy⟩

theorem group (hx : Sentence Precedence.conditional xs) :
    Sentence Precedence.primary (.mark .leftParen :: (xs ++ [.mark .rightParen])) := by
  obtain ⟨x, hx⟩ := hx
  exact ⟨.unary default .group x, .group hx⟩

theorem last {separator : Mark} (hx : Sentence level xs) : SentenceRow separator level xs := by
  obtain ⟨x, hx⟩ := hx
  refine ⟨[(xs, x)], List.cons_ne_nil _ _, ?_, ?_⟩
  · intro p hp
    rw [List.mem_singleton.mp hp]
    exact hx
  · rw [List.map_singleton, List.intercalate_singleton]

theorem before {separator : Mark} (hx : Sentence level xs) (hys : SentenceRow separator level ys) :
    SentenceRow separator level (xs ++ .mark separator :: ys) := by
  obtain ⟨x, hx⟩ := hx
  obtain ⟨parts, hne, hparts, rfl⟩ := hys
  refine ⟨(xs, x) :: parts, List.cons_ne_nil _ _, ?_, ?_⟩
  · intro p hp
    rcases List.mem_cons.mp hp with rfl | hp
    · exact hx
    · exact hparts p hp
  · rw [List.map_cons, List.intercalate_cons_of_ne_nil (by simpa using hne), List.append_assoc]
    rfl

theorem lastArgument (hx : Sentence Precedence.conditional xs) :
    SentenceArguments (xs ++ [.mark .rightParen]) :=
  ⟨xs, hx.last, rfl⟩

theorem argument (hx : Sentence Precedence.conditional xs) (hys : SentenceArguments ys) :
    SentenceArguments (xs ++ .mark .comma :: ys) := by
  obtain ⟨row, hrow, rfl⟩ := hys
  exact ⟨_, hx.before hrow, by simp⟩

theorem call {name : String} (hname : name ∉ keywords) (hxs : SentenceArguments xs) :
    Sentence Precedence.primary (.identifier name :: .mark .leftParen :: xs) := by
  obtain ⟨_, ⟨parts, -, hparts, rfl⟩, rfl⟩ := hxs
  exact ⟨.call default name (parts.map Prod.snd), .call hname hparts⟩

theorem sequence (hxs : SentenceStatements xs) : Sentence Precedence.sequence xs := by
  obtain ⟨parts, hne, hparts, rfl⟩ := hxs
  rcases parts with _ | ⟨p, _ | ⟨q, parts⟩⟩
  · exact absurd rfl hne
  · rw [List.map_singleton, List.intercalate_singleton]
    exact ⟨p.2, .tighter (by decide) (hparts p List.mem_cons_self)⟩
  · exact ⟨_, @Derives.sequence default _ (Nat.le_add_left 2 _) hparts⟩

end Sentence

theorem Completes.loosen {level tight : Nat} {ls : List Lexeme}
    (h : Completes (Sentence tight) ls) (hle : level ≤ tight)
    (htight : tight ≤ Precedence.primary) : Completes (Sentence level) ls :=
  h.imp fun _ hls => hls.loosen hle htight

namespace Reader

open RawExpr

variable {stop : Position} {level : Nat}

/-! ## The grammar -/

/-- On these items, every function of the grammar below the assignments is prompt. -/
structure ReadsPromptly (stop : Position) (ts : List Item) : Prop where
  conditional : Parses stop Precedence.conditional (conditional stop) ts
  chain : ∀ level ≤ Precedence.power, Parses stop level (chain stop level) ts
  operands : ∀ level < Precedence.power, ∀ left, Prompt stop (operands stop level left) ts
    fun ls => ∀ ls₀, Sentence level ls₀ → Completes (Sentence level) (ls₀ ++ ls)
  power : Parses stop Precedence.power (power stop) ts
  indexed : Parses stop Precedence.primary (indexed stop) ts
  indices : ∀ array, Prompt stop (indices stop array) ts fun ls =>
    ∀ ls₀, Sentence Precedence.primary ls₀ → Completes (Sentence Precedence.primary) (ls₀ ++ ls)
  arguments : Prompt stop (arguments stop) ts (Completes SentenceArguments)
  moreArguments : Prompt stop (moreArguments stop) ts (Completes SentenceArguments)

section Items

variable {ts : List Item} (ih : ∀ ts', ts'.length < ts.length → ReadsPromptly stop ts')

include ih

theorem prompt_moreArguments
    (hconditional : Parses stop Precedence.conditional (conditional stop) ts) :
    Prompt stop (moreArguments stop) ts (Completes SentenceArguments) := by
  -- an argument that is begun can be the last one
  have hlast (ls : List Lexeme) (h : Completes (Sentence Precedence.conditional) ls) :
      Completes SentenceArguments ls := by
    refine h.within [.mark .rightParen] (by decide) fun more hls => ?_
    simpa using hls.lastArgument
  rw [moreArguments_eq]
  refine .bind_parses hconditional hlast ?_
  intro e es ts₁ h₁ he
  refine .expected_bind (hlast _ (by simpa using he.completes)) ?_
  intro t more ts₂ h₂ ht
  have hl := Lexeme.argumentEnd?_eq_some.mp ht
  cases more with
  | true =>
    refine .bind ((ih ts₂ (by omega)).moreArguments.imp fun ls hls => ?_) fun _ _ _ _ _ => .pure _
    refine hls.within [] (by simp) fun more hmore => ?_
    simpa [hl] using Sentence.argument he hmore
  | false => exact .pure _

theorem prompt_primary : Prompt stop (primary stop) ts
    (Completes (Sentence Precedence.primary)) := by
  rw [primary_eq]
  refine .expected_bind_refuse ⟨[filler], by decide, .filler (Nat.le_refl _)⟩ ?_
  intro t l ts₁ hts hl
  obtain rfl : t.lexeme = l := by simpa using hl
  have h₁ : ts₁.length < ts.length := by
    rw [hts]
    exact Nat.lt_succ_self _
  dsimp only
  rcases hliteral : t.lexeme.literal? with _ | fault | v
  · have hmet : MetAt stop ts (.unexpected t .expression) := .unexpected _ (by rw [hts]; rfl)
    cases hlexeme : t.lexeme with
    | mark m =>
      cases m with
      | leftParen =>
        have hopen (es : List Lexeme) (h : Completes (Sentence Precedence.conditional) es) :
            Completes (Sentence Precedence.primary) (.mark .leftParen :: es) := by
          refine h.within [.mark .rightParen] (by decide) fun more hmore => ?_
          simpa using hmore.group
        refine .inr (.bind_parses (ih ts₁ h₁).conditional hopen ?_)
        intro e es ts₂ h₂ he
        exact .expected_bind (hopen _ (by simpa using he.completes)) fun _ _ _ _ _ => .pure _
      | _ => exact .inl ⟨_, rfl, hmet⟩
    | identifier x =>
      have hname : x ∉ keywords := Lexeme.not_mem_keywords (hlexeme ▸ hliteral)
      have hvar : Sentence Precedence.primary [.identifier x] := ⟨.var default x, .var hname⟩
      refine .inr (.optional_bind (by simpa [hlexeme] using hvar.completes) (.pure _) ?_)
      intro t' b ts₂ h₂ ht'
      have hl' := Lexeme.isMark_eq_some.mp ht'
      refine .bind ((ih ts₂ (by omega)).arguments.imp fun ls hls => ?_) fun _ _ _ _ _ => .pure _
      refine hls.within [] (by simp) fun more hmore => ?_
      simpa [hlexeme, hl'] using Sentence.call hname hmore
    | _ => exact .inl ⟨_, rfl, hmet⟩
  · refine .inl ⟨_, rfl, ?_⟩
    rw [hts]
    exact .literal hliteral
  · exact .inr (.pure _)

theorem prompt_indices (array : RawExpr) : Prompt stop (indices stop array) ts fun ls =>
    ∀ ls₀, Sentence Precedence.primary ls₀ →
      Completes (Sentence Precedence.primary) (ls₀ ++ ls) := by
  rw [indices_eq]
  refine .optional_bind (fun ls₀ h₀ => by simpa using h₀.completes) (.pure _) ?_
  intro t b ts₁ h₁ ht
  have hl := Lexeme.isMark_eq_some.mp ht
  -- an index that is begun is completed and closed
  have hindex (is ls₀ : List Lexeme) (his : Completes (Sentence Precedence.conditional) is)
      (h₀ : Sentence Precedence.primary ls₀) :
      Completes (Sentence Precedence.primary) (ls₀ ++ t.lexeme :: is) := by
    refine his.within [.mark .rightBracket] (by decide) fun more hmore => ?_
    simpa [hl] using h₀.element hmore
  refine .bind_parses (ih ts₁ h₁).conditional (fun is his ls₀ => hindex is ls₀ his) ?_
  intro i is ts₂ h₂ hi
  refine .expected_bind (fun ls₀ => hindex _ ls₀ (by simpa using hi.completes)) ?_
  intro t' b' ts₃ h₃ ht'
  have hl' := Lexeme.isMark_eq_some.mp ht'
  refine ((ih ts₃ (by omega)).indices _).imp fun ls hls ls₀ h₀ => ?_
  simpa [hl, hl'] using hls _ (h₀.element hi)

theorem parses_primary : Parses stop Precedence.primary (primary stop) ts :=
  .of_gives rfl (gives_readPrimary fun ts' _ => readsDerived stop ts') (prompt_primary ih)

theorem parses_indexed : Parses stop Precedence.primary (indexed stop) ts := by
  refine .of_gives rfl (readsDerived stop ts).indexed ?_
  rw [indexed_eq]
  refine .bind_parses (parses_primary ih) (fun _ h => h) ?_
  intro array as ts₁ h₁ has
  exact ((ih ts₁ h₁).indices array).imp fun ls hls => hls as has

theorem parses_unary : Parses stop Precedence.unary (unary stop) ts := by
  refine .of_gives rfl (gives_readUnary fun ts' _ => readsDerived stop ts') ?_
  rw [unary_eq]
  refine .optional_bind ⟨[filler], by decide, .filler (by decide)⟩
    ((parses_indexed ih).prompt.imp fun ls hls => hls.loosen (by decide) (by decide)) ?_
  intro t op ts₁ h₁ ht
  obtain ⟨m, hop, hl⟩ := Lexeme.sign?_eq_some.mp ht
  refine .bind_parses (ih ts₁ h₁).indexed (fun ls hls => ?_) fun _ _ _ _ _ => .pure _
  refine hls.within [] (by simp) fun more hmore => ?_
  simpa [hl] using hmore.sign hop

theorem parses_power : Parses stop Precedence.power (power stop) ts := by
  refine .of_gives rfl (readsDerived stop ts).power ?_
  rw [power_eq]
  refine .bind_parses (parses_unary ih) (fun ls hls => hls.loosen (by decide) (by decide)) ?_
  intro base bs ts₁ h₁ hbase
  have hpower : Sentence Precedence.power bs := hbase.loosen (by decide) (by decide)
  refine .optional_bind (by simpa using hpower.completes) (.pure _) ?_
  intro t op ts₂ h₂ ht
  obtain ⟨hl, -, hop⟩ := Lexeme.operatorAt_eq_some.mp ht
  obtain rfl := BinaryOp.eq_power_of_precedence hop
  refine .bind_parses (ih ts₂ (by omega)).power (fun es hes => ?_) fun _ _ _ _ _ => .pure _
  refine hes.within [] (by simp) fun more hmore => ?_
  simpa [hl, BinaryOp.mark] using hbase.power hmore

theorem prompt_operands (hlevel : level < Precedence.power) (left : RawExpr) :
    Prompt stop (operands stop level left) ts
      fun ls => ∀ ls₀, Sentence level ls₀ → Completes (Sentence level) (ls₀ ++ ls) := by
  rw [operands_eq]
  refine .optional_bind (fun ls₀ h₀ => by simpa using h₀.completes) (.pure _) ?_
  intro t op ts₁ h₁ ht
  obtain ⟨hl, hconcat, rfl⟩ := Lexeme.operatorAt_eq_some.mp ht
  have hpower : op ≠ .power := by
    rintro rfl
    exact absurd hlevel (Nat.lt_irrefl _)
  refine .bind_parses ((ih ts₁ h₁).chain _ hlevel) (fun rs hrs ls₀ h₀ => ?_) ?_
  · refine hrs.within [] (by simp) fun more hmore => ?_
    simpa [hl] using h₀.chain hpower hconcat hmore
  intro right rs ts₂ h₂ hright
  -- the operator and both its operands are the left operand of what follows
  refine ((ih ts₂ (by omega)).operands _ hlevel _).imp fun ls hls ls₀ h₀ => ?_
  simpa [hl] using hls _ (h₀.chain hpower hconcat hright)

/-- Induction on the levels, from the tightest down. -/
theorem parses_chain {level : Nat} (hlevel : level ≤ Precedence.power) :
    Parses stop level (chain stop level) ts := by
  by_cases hlt : level < Precedence.power
  · have hnext : level + 1 ≤ Precedence.power := hlt
    have hle := Nat.le_trans hnext (show Precedence.power ≤ Precedence.primary by decide)
    refine .of_gives rfl ((readsDerived stop ts).chain level hlevel) ?_
    rw [chain_eq stop hlt]
    refine .bind_parses (parses_chain hnext) (fun ls hls => hls.loosen (Nat.le_succ _) hle) ?_
    intro left ls ts₁ h₁ hleft
    refine ((ih ts₁ h₁).operands level hlt left).imp fun ls' hls' => ?_
    exact hls' ls (hleft.loosen (Nat.le_succ _) hle)
  · obtain rfl := Nat.le_antisymm hlevel (Nat.le_of_not_lt hlt)
    rw [chain_eq_power]
    exact parses_power ih
termination_by Precedence.power - level

theorem parses_conditional : Parses stop Precedence.conditional (conditional stop) ts := by
  refine .of_gives rfl (readsDerived stop ts).conditional ?_
  rw [conditional_eq]
  have hchain : Parses stop Precedence.boolean (chain stop Precedence.boolean) ts :=
    parses_chain ih (by decide)
  refine .bind_parses hchain (fun ls hls => hls.loosen (by decide) (by decide)) ?_
  intro c cs ts₁ h₁ hc
  have hcondition : Sentence Precedence.conditional cs := hc.loosen (by decide) (by decide)
  refine .optional_bind (by simpa using hcondition.completes) (.pure _) ?_
  intro t b ts₂ h₂ ht
  have hl := Lexeme.isMark_eq_some.mp ht
  have hbranch (xs : List Lexeme) (h : Completes (Sentence Precedence.conditional) xs) :
      Completes (Sentence Precedence.conditional) (cs ++ t.lexeme :: xs) := by
    refine h.within [.mark .colon, filler] (by decide) fun more hmore => ?_
    simpa [hl] using hc.conditional hmore (.filler (by decide))
  refine .bind_parses (ih ts₂ (by omega)).conditional hbranch ?_
  intro x xs ts₃ h₃ hx
  refine .expected_bind (hbranch _ (by simpa using hx.completes)) ?_
  intro t' b' ts₄ h₄ ht'
  have hl' := Lexeme.isMark_eq_some.mp ht'
  refine .bind_parses (ih ts₄ (by omega)).conditional (fun ys hys => ?_) fun _ _ _ _ _ => .pure _
  refine hys.within [] (by simp) fun more hmore => ?_
  simpa [hl, hl'] using hc.conditional hx hmore

theorem prompt_arguments : Prompt stop (arguments stop) ts (Completes SentenceArguments) := by
  have hfiller : Sentence Precedence.conditional [filler] := .filler (by decide)
  rw [arguments_eq]
  exact .optional_bind ⟨_, by decide, hfiller.lastArgument⟩
    (prompt_moreArguments ih (parses_conditional ih)) fun _ _ _ _ _ => .pure _

end Items

/-- Induction on the number of items: every function goes on with fewer, or down the grammar. -/
theorem readsPromptly (stop : Position) (ts : List Item) : ReadsPromptly stop ts := by
  have ih : ∀ ts', ts'.length < ts.length → ReadsPromptly stop ts' :=
    fun ts' h => readsPromptly stop ts'
  exact ⟨parses_conditional ih, fun _ => parses_chain ih, fun _ => prompt_operands ih,
    parses_power ih, parses_indexed ih, prompt_indices ih, prompt_arguments ih,
    prompt_moreArguments ih (parses_conditional ih)⟩
termination_by ts.length

/-! ## Statements -/

theorem parses_assignment (stop : Position) (ts : List Item) :
    Parses stop Precedence.assignment (assignment stop) ts := by
  refine .of_gives rfl (gives_readAssignment stop ts) ?_
  rw [assignment_eq]
  refine .bind_parses (readsPromptly stop ts).conditional
    (fun ls hls => hls.loosen (by decide) (by decide)) ?_
  intro target xs ts₁ h₁ htarget
  have hstatement : Sentence Precedence.assignment xs := htarget.loosen (by decide) (by decide)
  refine .optional_bind (by simpa using hstatement.completes) (.pure _) ?_
  intro t b ts₂ h₂ ht
  have hl := Lexeme.isMark_eq_some.mp ht
  refine .bind_parses (parses_assignment stop ts₂) (fun vs hvs => ?_) fun _ _ _ _ _ => .pure _
  refine hvs.within [] (by simp) fun more hmore => ?_
  simpa [hl] using htarget.assignment hmore
termination_by ts.length

theorem nextToken_congr {ts ts' : List Item} (h : ts'.head? = ts.head?) :
    nextToken stop ts' = nextToken stop ts := by
  cases ts with
  | nil => rw [List.head?_eq_none_iff.mp h]
  | cons item ts =>
    obtain ⟨ts', rfl⟩ := List.head?_eq_some_iff.mp h
    rfl

theorem failsAt_ending {α : Type} (a : α) {ts : List Item} {V : List Lexeme → Prop} (hV : V []) :
    FailsAt stop (ending stop a) ts V := by
  intro e he
  have hlocal (ts' : List Item) (h : ts'.head? = ts.head?) : ending stop a ts' = .error e := by
    rw [← he, ending, ending, nextToken_congr h]
  refine ⟨[], ts, rfl, ?_, hV, hlocal⟩
  rcases bind_eq_error.mp he with he | ⟨t, ht, he⟩
  · cases ts with
    | nil => cases he
    | cons item ts =>
      obtain ⟨e', rfl, rfl⟩ := mapError_eq_error.mp he
      exact .scan
  · split at he
    · cases he
    · cases he
      exact .unexpected _ ht

/-- Statements fail at the first item that no statement goes on with. -/
theorem failsAt_statements (stop : Position) (ts : List Item) :
    FailsAt stop (statements stop) ts (Completes SentenceStatements) := by
  have hlast (ls : List Lexeme) (h : Completes (Sentence Precedence.assignment) ls) :
      Completes SentenceStatements ls := h.imp fun _ hls => hls.last
  rw [statements_eq]
  refine .bind ((parses_assignment stop ts).prompt.imp hlast) ?_
  intro first ls ts₁ hfirst hls
  obtain ⟨h₁, hsentence⟩ := (parses_assignment stop ts).taken hfirst hls
  have hhere : Completes SentenceStatements (ls ++ []) :=
    hlast _ (by simpa using hsentence.completes)
  refine .bind (.optional _ hhere) ?_
  intro found ls' ts₂ hfound hls'
  rcases optional_eq_ok hfound with ⟨rfl, rfl⟩ | ⟨t, b, rfl, rfl, ht⟩
  · obtain rfl := hls'.unique .nil
    exact failsAt_ending _ (by simpa using hhere)
  · obtain rfl := hls'.unique (.cons rfl .nil)
    have hl := Lexeme.isMark_eq_some.mp ht
    dsimp only
    refine .bind_pure ?_ fun r : RawExpr × List (Token × RawExpr) => (first, (t, r.1) :: r.2)
    refine (failsAt_statements stop ts₂).imp fun more hmore => ?_
    refine hmore.within [] (by simp) fun more' hmore' => ?_
    simpa [hl] using hsentence.before hmore'
termination_by ts.length
decreasing_by exact Nat.lt_of_succ_lt h₁

end Reader

end ComputedField
