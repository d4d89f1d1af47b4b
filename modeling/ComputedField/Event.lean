import ComputedField.Expr.Print
import ComputedField.Value.Fault

/-!
# Events

What compiling and evaluating report beside their results. `Traced` is a computation that may fail
and reports events on the way; its `outcome` alone is a computation that may fail, and forgetting
the events commutes with every step.
-/

set_option autoImplicit false

namespace ComputedField

/-- How much an event matters. -/
inductive Level where
  | debug
  | trace
deriving DecidableEq, Repr

namespace Level

def name : Level → String
  | debug => "DEBUG"
  | trace => "TRACE"

/-- Who asks for this level also gets events of level `l`. -/
def includes : Level → Level → Bool
  | trace, _ => true
  | debug, l => l == debug

end Level

inductive Event where
  /-- a text fell apart into tokens -/
  | scanned (tokens : Nat)
  | read (tree : RawExpr)
  | checked (type : Option Ty)
  | simplified (tree : TypedExpr)
  | evaluated (value : Value)
  /-- an assignment to an element that the array does not have -/
  | noElement (pos : Position)
  | called (name : String) (arguments : List Value)
  | folded (pos : Position)
  /-- a constant part that fails, but may never be reached -/
  | leftUnfolded (error : EvalError)
  | nullOperand (op : BinaryOp) (pos : Position)
  | decidedByLeft (c : Connective) (pos : Position)
  | decidedByRight (c : Connective) (pos : Position)
  | neutralDropped (c : Connective) (pos : Position)
  | branchTaken (pos : Position)

/-- Line and column with a colon between them. -/
def Position.brief (p : Position) : String := toString p.line ++ ":" ++ toString p.column

namespace Event

def level : Event → Level
  | scanned _ | read _ | checked _ | simplified _ | evaluated _ | noElement _ => .debug
  | _ => .trace

def message : Event → String
  | scanned n => "lexed " ++ toString n ++ " tokens"
  | read tree => "parsed: " ++ tree.text
  | checked type => "checked: type " ++ Ty.describe type
  | simplified tree => "simplified: " ++ tree.text
  | evaluated value => "evaluated: " ++ value.text
  | noElement pos => "assignment at " ++ pos.brief ++ " addressed no element"
  | called name arguments =>
    "calling " ++ name ++ " with " ++ toString arguments.length ++ " argument(s)"
  | folded pos => "folded constant at " ++ pos.brief
  | leftUnfolded error => "left guarded constant unfolded: " ++ error.message
  | nullOperand op pos => "null operand of " ++ op.name ++ " at " ++ pos.brief ++ " folds to null"
  | decidedByLeft c pos =>
    (BinaryOp.connective c).name ++ " short-circuits at " ++ pos.brief
  | decidedByRight c pos =>
    (BinaryOp.connective c).name ++ " decided by its right operand at " ++ pos.brief
  | neutralDropped c pos =>
    "dropped neutral operand of " ++ (BinaryOp.connective c).name ++ " at " ++ pos.brief
  | branchTaken pos => "conditional at " ++ pos.brief ++ " folded to one branch"

/-- The event as a line of a log. -/
def line (e : Event) : String := e.level.name ++ " " ++ e.message

end Event

/-- The log of some events for one who asks for `level`. -/
def logLines (level : Level) (events : List Event) : List String :=
  (events.filter (level.includes ·.level)).map Event.line

/-! ## Computations that report events -/

/-- A result or a failure, and what was reported before it. -/
structure Traced (ε α : Type) where
  events : List Event
  outcome : Except ε α

namespace Traced

variable {ε α β : Type}

def pure (a : α) : Traced ε α := ⟨[], .ok a⟩

def fail (e : ε) : Traced ε α := ⟨[], .error e⟩

def ofExcept (r : Except ε α) : Traced ε α := ⟨[], r⟩

/-- Reports one event. -/
def report (e : Event) : Traced ε Unit := ⟨[e], .ok ()⟩

def bind (x : Traced ε α) (f : α → Traced ε β) : Traced ε β :=
  match x.outcome with
  | .ok a => ⟨x.events ++ (f a).events, (f a).outcome⟩
  | .error e => ⟨x.events, .error e⟩

instance : Monad (Traced ε) where
  pure := pure
  bind := bind

instance : LawfulMonad (Traced ε) := LawfulMonad.mk' (Traced ε)
  (by
    intro α x
    obtain ⟨events, outcome⟩ := x
    cases outcome <;> simp [Functor.map, bind, pure])
  (by
    intro α β x f
    simp [Bind.bind, Pure.pure, bind, pure])
  (by
    intro α β γ x f g
    obtain ⟨events, outcome⟩ := x
    cases outcome with
    | error e => simp [Bind.bind, bind]
    | ok a => cases h : (f a).outcome <;> simp [Bind.bind, bind, h])

/-- The same computation with another failure in place of each. -/
def mapError {δ : Type} (f : ε → δ) (x : Traced ε α) : Traced δ α :=
  ⟨x.events, x.outcome.mapError f⟩

@[simp] theorem outcome_pure (a : α) : (Pure.pure a : Traced ε α).outcome = .ok a := rfl

@[simp] theorem outcome_fail (e : ε) : (fail e : Traced ε α).outcome = .error e := rfl

@[simp] theorem outcome_ofExcept (r : Except ε α) : (ofExcept r).outcome = r := rfl

@[simp] theorem outcome_report (e : Event) : (report e : Traced ε Unit).outcome = .ok () := rfl

@[simp] theorem outcome_bind (x : Traced ε α) (f : α → Traced ε β) :
    (x >>= f).outcome = x.outcome >>= fun a => (f a).outcome := by
  obtain ⟨events, outcome⟩ := x
  cases outcome <;> rfl

end Traced

end ComputedField
