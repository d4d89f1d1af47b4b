import ComputedField.Compilation
import ComputedField.Environment.Library
import ComputedField.Proofs.Expr.Earliest
import Mathlib

/-!
# Compiling under diagnosis

Under diagnosis the whole text is scanned before it is read. This brings a fault of the scan to the
front where the reader would have been stopped before it, and changes nothing else
(`compile_diagnosing`). Which of two places comes first is told by their lines and columns as they
are: words of 32 bits tell it of texts with fewer than `2 ^ 32` lines and columns.
-/

set_option autoImplicit false

namespace ComputedField

/-! ## The first fault of a scan -/

namespace Scan

/-- Behind the tokens in front stands the first fault. -/
theorem tokens_eq_error {s : Scan} {e : ScanError} :
    s.tokens = .error e ↔ ∃ (tokens : List Token) (more : List Item),
      s.items = tokens.map .ok ++ .error e :: more := by
  unfold tokens
  generalize s.items = items
  induction items with
  | nil =>
    constructor
    · intro h
      cases h
    · rintro ⟨tokens, more, h⟩
      simp at h
  | cons item items ih =>
    rw [List.mapM_cons, id]
    cases item with
    | error e' =>
      constructor
      · intro h
        cases h
        exact ⟨[], items, rfl⟩
      · rintro ⟨tokens, more, h⟩
        cases tokens with
        | nil =>
          cases h
          rfl
        | cons t tokens => cases h
    | ok t =>
      rw [ok_bind, bind_eq_error]
      constructor
      · rintro (h | ⟨ts, -, h⟩)
        · obtain ⟨tokens, more, rfl⟩ := ih.mp h
          exact ⟨t :: tokens, more, rfl⟩
        · cases h
      · rintro ⟨tokens, more, h⟩
        cases tokens with
        | nil => cases h
        | cons t' tokens =>
          cases h
          exact .inl (ih.mpr ⟨tokens, more, rfl⟩)

/-- A token behind which the scan has its first fault stands before it. -/
theorem lt_of_tokens_eq_error {text : String} {e : ScanError} {before : List Token}
    {rest : List Item} {t : Token} (he : (Scan.ofText text).tokens = .error e)
    (hitems : (Scan.ofText text).items = before.map .ok ++ rest)
    (hnext : nextToken (Scan.ofText text).stop rest = .ok t) : t.pos < e.pos := by
  obtain ⟨tokens, more, hfault⟩ := tokens_eq_error.mp he
  have hnot : Except.error e ∉ (before.map Except.ok : List Item) := by simp
  have hrest : ∃ between, rest = .ok t :: (between ++ .error e :: more) := by
    rcases List.append_eq_append_iff.mp (hitems.symm.trans hfault) with
      ⟨between, -, hrest⟩ | ⟨between, hbefore, hbetween⟩
    · cases between with
      | nil =>
        rw [hrest] at hnext
        cases hnext
      | cons item between =>
        rw [hrest] at hnext
        cases mapError_eq_ok.mp hnext
        exact ⟨between, hrest⟩
    · cases between with
      | nil =>
        rw [← show Except.error e :: more = rest from hbetween] at hnext
        cases hnext
      | cons item between =>
        refine absurd ?_ hnot
        rw [hbefore, (List.cons.inj hbetween).1]
        simp
  obtain ⟨between, rfl⟩ := hrest
  have hpairwise := pairwise_places text
  rw [places, hitems] at hpairwise
  simp only [List.map_append, List.map_cons, List.append_assoc] at hpairwise
  obtain ⟨-, hpairwise, -⟩ := List.pairwise_append.mp hpairwise
  exact (List.pairwise_cons.mp hpairwise).1 e.pos (by simp [Item.pos])

end Scan

/-! ## Compilation -/

/-- The same options, with someone looking at the events or without. -/
def CompileOptions.diagnosing (options : CompileOptions) (diagnose : Bool) : CompileOptions :=
  { options with diagnose }

section Outcomes

variable (declarations : Declarations) (options : CompileOptions) (expected : Option Ty)
  (text : String)

/-- Under diagnosis the text is scanned, and then compiled as it is without. -/
theorem outcome_compile_diagnosing :
    (compile declarations (options.diagnosing true) expected text).outcome =
      (tokenize text).mapError .scan >>= fun _ =>
        (compile declarations (options.diagnosing false) expected text).outcome := by
  rw [compile, compile]
  cases tokenize text with
  | error e => simp [CompileOptions.diagnosing, Except.mapError]
  | ok tokens => simp [CompileOptions.diagnosing, Except.mapError]

/-- A text that is not read does not compile. -/
theorem outcome_compile_of_ofText {e : ReadError} (h : RawExpr.ofText text = .error e) :
    (compile declarations (options.diagnosing false) expected text).outcome =
      .error (.ofReadError e) := by
  simp [compile, CompileOptions.diagnosing, h, Except.mapError]

end Outcomes

/-- **Diagnosis does not change what compiles.** Under diagnosis a text compiles to the same
expression or fails with the same error, unless its scan has a fault: then this is the error, and
without diagnosis the reader may have been stopped at a token strictly before it. A text that is
read has no such fault. -/
theorem compile_diagnosing :
    (∀ declarations (options : CompileOptions) expected text,
      (compile declarations (options.diagnosing true) expected text).outcome =
          (compile declarations (options.diagnosing false) expected text).outcome ∨
        ∃ e pos found asked, tokenize text = .error e ∧
          (compile declarations (options.diagnosing true) expected text).outcome =
            .error (.scan e) ∧
          (compile declarations (options.diagnosing false) expected text).outcome =
            .error (.grammar ⟨pos, .unexpected found asked⟩) ∧
          pos < e.pos) ∧
    ∀ text tree, RawExpr.ofText text = .ok tree → ∃ tokens, tokenize text = .ok tokens := by
  constructor
  · intro declarations options expected text
    cases htokens : tokenize text with
    | ok tokens =>
      left
      rw [outcome_compile_diagnosing, htokens]
      rfl
    | error e =>
      have hdiagnosed : (compile declarations (options.diagnosing true) expected text).outcome =
          .error (.scan e) := by
        rw [outcome_compile_diagnosing, htokens]
        rfl
      cases hread : RawExpr.ofText text with
      | ok tree =>
        obtain ⟨tokens, htokens', -⟩ := RawExpr.derives_of_ofText hread
        cases htokens.symm.trans htokens'
      | error e' =>
        have hplain := outcome_compile_of_ofText declarations options expected text hread
        obtain ⟨before, rest, hitems, ⟨fault, more, rfl, rfl⟩ | ⟨t, asked, hnext, rfl⟩⟩ :=
          RawExpr.error_of_ofText hread
        · have hfault : tokenize text = .error fault :=
            Scan.tokens_eq_error.mpr ⟨before, more, hitems⟩
          obtain rfl := Except.error.inj (htokens.symm.trans hfault)
          exact .inl (hdiagnosed.trans hplain.symm)
        · exact .inr ⟨e, t.pos, t.lexeme, asked, rfl, hdiagnosed, hplain,
            Scan.lt_of_tokens_eq_error htokens hitems hnext⟩
  · intro text tree hread
    obtain ⟨tokens, htokens, -⟩ := RawExpr.derives_of_ofText hread
    exact ⟨tokens, htokens⟩

/-- Behind two numbers, where the reader stops at the second, stands a character with which nothing
begins: diagnosis finds this one. A sum is read, so it has tokens. -/
theorem compile_diagnosing_number :
    (∃ e pos found asked, tokenize "1 1 @" = .error e ∧
      (compile (Environment.standard (σ := Unit)).declarations
        (CompileOptions.diagnosing ⟨.standard, true, false⟩ true) none "1 1 @").outcome =
          .error (.scan e) ∧
      (compile (Environment.standard (σ := Unit)).declarations
        (CompileOptions.diagnosing ⟨.standard, true, false⟩ false) none "1 1 @").outcome =
          .error (.grammar ⟨pos, .unexpected found asked⟩) ∧
      pos < e.pos ∧ pos = ⟨1, 3⟩ ∧ e = ⟨⟨1, 5⟩, .unexpectedCharacter '@'⟩) ∧
    ∃ tokens, tokenize "1 + x" = .ok tokens := by
  constructor
  · have htokens : tokenize "1 1 @" = .error ⟨⟨1, 5⟩, .unexpectedCharacter '@'⟩ := by cbv
    obtain ⟨asked, hplain⟩ : ∃ asked, (compile (Environment.standard (σ := Unit)).declarations
        (CompileOptions.diagnosing ⟨.standard, true, false⟩ false) none "1 1 @").outcome =
          .error (.grammar ⟨⟨1, 3⟩, .unexpected (.integer "1") asked⟩) := ⟨_, by cbv⟩
    obtain hsame | ⟨e, pos, found, asked, he, hdiagnosed, hplain', hlt⟩ :=
      compile_diagnosing.1 (Environment.standard (σ := Unit)).declarations
        ⟨.standard, true, false⟩ none "1 1 @"
    · rw [outcome_compile_diagnosing, htokens, hplain] at hsame
      cases hsame
    · cases htokens.symm.trans he
      cases hplain.symm.trans hplain'
      exact ⟨_, _, _, _, htokens, hdiagnosed, hplain', hlt, rfl, rfl⟩
  · exact compile_diagnosing.2 "1 + x"
      (.binary ⟨⟨.mark .plus, ⟨1, 3⟩⟩, ()⟩ .add
        (.literal ⟨⟨.integer "1", ⟨1, 1⟩⟩, ()⟩ (.integer 1))
        (.var ⟨⟨.identifier "x", ⟨1, 5⟩⟩, ()⟩ "x")) (by cbv)

end ComputedField
