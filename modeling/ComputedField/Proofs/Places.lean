import ComputedField.Environment.Library
import ComputedField.Proofs.Diagnosis
import ComputedField.Proofs.Evaluation.Places
import ComputedField.Proofs.Folding.Places
import ComputedField.Proofs.Token.Places
import ComputedField.Proofs.Typing.Places
import Mathlib

/-!
# Errors are reported at places of the text

The places of a tree are those of the tokens that it was read from, and checking, folding and
evaluating keep to them. So whatever fails, from the scan of a text to the evaluation of its tree,
is reported where a token of the text begins, at its end, or where the fault of the scan begins
(`compile_placed`). A report in words of 32 bits says the same of texts with fewer than `2 ^ 32`
lines and columns (`place_lt`).
-/

set_option autoImplicit false

namespace ComputedField

/-- Where the error is reported, the text has what it is about: a fault of its own, a token, or,
for an error of the grammar, a token or its end. -/
def CompileError.StandsIn (text : String) : CompileError → Prop
  | .scan e => FaultAt text e
  | .grammar e => TokenAt text e.pos ∨ EndAt text e.pos
  | .type e => TokenAt text e.pos
  | .folding e => TokenAt text e.pos
  | .mismatch .. => True

section Text

variable (text : String)

theorem tokensIn_items : TokensIn (TokenAt text) (Scan.ofText text).items :=
  fun _ ht => tokenAt_of_mem ht

theorem settles_tokenize : Settles (tokenize text) (fun _ => True) (FaultAt text) := by
  cases h : tokenize text with
  | ok tokens => exact trivial
  | error e =>
    obtain ⟨tokens, more, hitems⟩ := Scan.tokens_eq_error.mp h
    exact faultAt_of_mem (by simp [hitems])

/-- The token that the grammar has no use for is one of the text, or the end of it. -/
theorem standsIn_unexpected {text : String} {before : List Token} {rest : List Item} {t : Token}
    (hitems : (Scan.ofText text).items = before.map .ok ++ rest)
    (hnext : nextToken (Scan.ofText text).stop rest = .ok t) :
    TokenAt text t.pos ∨ EndAt text t.pos := by
  cases rest with
  | nil =>
    cases hnext
    exact .inr endAt_stop
  | cons item rest =>
    obtain rfl := mapError_eq_ok.mp hnext
    exact .inl (tokenAt_of_mem (by simp [hitems]))

theorem settles_ofText : Settles (RawExpr.ofText text) (Expr.PlacedIn (TokenAt text))
    fun e => (CompileError.ofReadError e).StandsIn text := by
  cases h : RawExpr.ofText text with
  | ok tree => exact RawExpr.placedIn_ofText (tokensIn_items text) h
  | error e =>
    obtain ⟨before, rest, hitems, ⟨fault, more, rfl, rfl⟩ | ⟨t, asked, hnext, rfl⟩⟩ :=
      RawExpr.error_of_ofText h
    · exact faultAt_of_mem (by simp [hitems])
    · exact standsIn_unexpected hitems hnext

end Text

/-! ## Compilation -/

section Compile

variable (declarations : Declarations) (expected : Option Ty) (text : String)

/-- The steps of a compilation give trees with places of the text, and fail where it has what the
error is about. -/
abbrev KeepsPlaces (x : Except CompileError TypedExpr) : Prop :=
  Settles x (Expr.PlacedIn (TokenAt text)) (CompileError.StandsIn text)

theorem keepsPlaces_checkExpected {e : TypedExpr} (h : e.PlacedIn (TokenAt text)) :
    KeepsPlaces text (checkExpected expected e) := by
  unfold checkExpected
  split
  · split
    · exact h
    · exact trivial
  · exact h

/-- Without diagnosis a compilation is reading, checking, folding and the comparison of types. -/
theorem keepsPlaces_compile_plain (ctx : MathContext) (simplify : Bool) :
    KeepsPlaces text (compile declarations ⟨ctx, simplify, false⟩ expected text).outcome := by
  unfold compile
  simp only [Bool.false_eq_true, if_false]
  refine Traced.settles_bind ((settles_ofText text).mapError fun _ h => h) fun tree htree => ?_
  have hcheck : KeepsPlaces text ((RawExpr.check declarations tree).mapError .type) :=
    (RawExpr.placed_check htree).mapError fun _ h => h
  refine Traced.settles_report (Traced.settles_bind hcheck fun checked hchecked => ?_)
  refine Traced.settles_report ?_
  cases simplify with
  | true =>
    have hfold : KeepsPlaces text
        ((TypedExpr.fold ctx checked).outcome.mapError .folding) :=
      (TypedExpr.placed_foldIn hchecked false).mapError fun _ h => h
    refine Traced.settles_bind hfold fun folded hfolded => Traced.settles_report ?_
    exact keepsPlaces_checkExpected expected text hfolded
  | false => exact keepsPlaces_checkExpected expected text hchecked

theorem keepsPlaces_compile (options : CompileOptions) :
    KeepsPlaces text (compile declarations options expected text).outcome := by
  obtain ⟨ctx, simplify, diagnose⟩ := options
  have hplain := keepsPlaces_compile_plain declarations expected text ctx simplify
  cases diagnose with
  | false => exact hplain
  | true =>
    have hscan : Settles ((tokenize text).mapError .scan) (fun _ => True)
        (CompileError.StandsIn text) := (settles_tokenize text).mapError fun _ h => h
    show KeepsPlaces text (compile declarations
      (CompileOptions.diagnosing ⟨ctx, simplify, true⟩ true) expected text).outcome
    rw [outcome_compile_diagnosing]
    exact hscan.bind fun _ _ => hplain

end Compile

/-- **Errors are reported at places of the text.** Whatever the declarations and the options, an
error of the scan stands at the first character of its fault, an error of the grammar at that of a
token or at the end of the text, and an error of checking or of folding at that of a token. And the
tree that is compiled, folded or not, fails at the first character of a token of the text,
whatever environment it is evaluated in. -/
theorem compile_placed (declarations : Declarations) (options : CompileOptions)
    (expected : Option Ty) (text : String) :
    (∀ e, (compile declarations options expected text).outcome = .error e → e.StandsIn text) ∧
      ∀ tree, (compile declarations options expected text).outcome = .ok tree →
        ∀ (σ : Type) (env : Environment σ) (host : σ) (ctx : MathContext) (e : EvalError),
          (env.evaluate host ctx tree).outcome = .error e → TokenAt text e.pos := by
  have hplaces := keepsPlaces_compile declarations expected text options
  refine ⟨fun e => hplaces.of_error, fun tree htree σ env host ctx e he => ?_⟩
  have htree := hplaces.of_ok htree
  exact TypedExpr.failsIn_eval env.functions ctx htree (env.world host) _ e (Prod.ext he rfl)

/-- A division by zero in the second line is reported at its sign, by folding and by evaluating. -/
theorem compile_placed_division :
    ∃ tree,
      (compile (Environment.standard (σ := Unit)).declarations ⟨.standard, false, true⟩ none
        "2 +\n 1 / 0").outcome = .ok tree ∧
      (Environment.standard.evaluate () .standard tree).outcome =
        .error ⟨⟨2, 4⟩, .divisionByZero⟩ ∧
      (compile (Environment.standard (σ := Unit)).declarations ⟨.standard, true, true⟩ none
        "2 +\n 1 / 0").outcome = .error (.folding ⟨⟨2, 4⟩, .divisionByZero⟩) ∧
      TokenAt "2 +\n 1 / 0" ⟨2, 4⟩ := by
  obtain ⟨tree, hcompile, hfail⟩ : ∃ tree,
      (compile (Environment.standard (σ := Unit)).declarations ⟨.standard, false, true⟩ none
        "2 +\n 1 / 0").outcome = .ok tree ∧
      (Environment.standard.evaluate () .standard tree).outcome =
        .error ⟨⟨2, 4⟩, .divisionByZero⟩ := ⟨_, by cbv, by cbv⟩
  refine ⟨tree, hcompile, hfail, by cbv, ?_⟩
  exact (compile_placed _ _ none "2 +\n 1 / 0").2 tree hcompile Unit .standard () .standard _ hfail

end ComputedField
