import ComputedField.Evaluation
import ComputedField.Expr.Reading
import ComputedField.Folding
import ComputedField.Typing.Check

/-!
# Compilation

From the text of a formula to a checked expression: reading, checking, folding, and last the
comparison with the type that the caller asks for. `Environment.run` compiles and evaluates.
-/

set_option autoImplicit false

namespace ComputedField

/-- Why a text does not compile. -/
inductive CompileError where
  | scan (error : ScanError)
  | grammar (error : Located GrammarFault)
  | type (error : TypeError)
  /-- a constant part that evaluation is bound to reach fails -/
  | folding (error : EvalError)
  | mismatch (expected found : Ty)
deriving DecidableEq, Repr

namespace CompileError

def ofReadError : ReadError → CompileError
  | .scan e => scan e
  | .grammar e => grammar e

/-- Where the error is reported; a formula of the wrong type is wrong as a whole. -/
def pos? : CompileError → Option Position
  | scan e => some e.pos
  | grammar e => some e.pos
  | type e => some e.pos
  | folding e => some e.pos
  | mismatch .. => none

def message : CompileError → String
  | scan e => e.message
  | grammar e => e.message
  | type e => e.message
  | folding e => e.message
  | mismatch expected found =>
    "Expected an expression of type '" ++ expected.name ++ "' but found '" ++ found.name ++ "'."

/-- The texts of the errors behind this one, outermost first. Behind a failed folding there are
two: the failure as folding reports it, and the evaluation's. -/
def causes : CompileError → List String
  | scan e => [e.message]
  | grammar e => [e.message]
  | type e => [e.message]
  | folding e => [e.message, e.message]
  | mismatch .. => []

end CompileError

structure CompileOptions where
  context : MathContext
  /-- whether constant parts are evaluated ahead of time -/
  simplify : Bool
  /-- whether someone looks at the events; then the whole text is scanned before it is read, and a
  fault anywhere in it comes first -/
  diagnose : Bool
deriving Repr

/-- An expression of an unknown type passes for every type. -/
def checkExpected (expected : Option Ty) (e : TypedExpr) : Except CompileError TypedExpr :=
  match expected, e.type with
  | some t, some found => if t = found then .ok e else .error (.mismatch t found)
  | _, _ => .ok e

/-- Compiles a formula. -/
def compile (declarations : Declarations) (options : CompileOptions) (expected : Option Ty)
    (text : String) : Traced CompileError TypedExpr := do
  if options.diagnose then
    let tokens ← Traced.ofExcept ((tokenize text).mapError .scan)
    Traced.report (.scanned tokens.length)
  let tree ← Traced.ofExcept ((RawExpr.ofText text).mapError .ofReadError)
  Traced.report (.read tree)
  let checked ← Traced.ofExcept ((RawExpr.check declarations tree).mapError .type)
  Traced.report (.checked checked.type)
  let compiled ←
    if options.simplify then do
      let folded ← (TypedExpr.fold options.context checked).mapError .folding
      Traced.report (.simplified folded)
      pure folded
    else pure checked
  Traced.ofExcept (checkExpected expected compiled)

/-! ## Running a text -/

/-- Why a text has no value. -/
inductive RunError where
  | compile (error : CompileError)
  | evaluate (error : EvalError)
deriving DecidableEq, Repr

def RunError.message : RunError → String
  | compile e => e.message
  | evaluate e => e.message

/-- How a run of a text ended, and what it left. -/
structure Ran (σ : Type) where
  outcome : Except RunError Value
  environment : Environment σ
  host : σ
  events : List Event

/-- Compiles and evaluates a formula. -/
def Environment.run {σ : Type} (env : Environment σ) (host : σ) (options : CompileOptions)
    (text : String) : Ran σ :=
  let compiled := compile env.declarations options none text
  match compiled.outcome with
  | .error e => ⟨.error (.compile e), env, host, compiled.events⟩
  | .ok e =>
    let evaluated := env.evaluate host options.context e
    ⟨evaluated.outcome.mapError .evaluate, evaluated.environment, evaluated.host,
      compiled.events ++ evaluated.events⟩

end ComputedField
