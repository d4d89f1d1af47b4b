import ComputedField.Expr.Reading
import ComputedField.Proofs.Outcome

/-!
# The reader as programs over the items left

The functions of the grammar carry the proof that they leave fewer items. Without it each of them
is a program whose state is the list of items that are left (`Reader`), and each has one equation
that says which programs it runs (`conditional_eq` and those behind it).
-/

set_option autoImplicit false

namespace ComputedField

/-- A program that reads from the start of the items left. -/
abbrev Reader (α : Type) := StateT (List Item) (Except ReadError) α

/-- What is read and what is left, without the proof that it is shorter. -/
def forget {α : Type} {n : Nat} (x : Except ReadError (Reading α n)) :
    Except ReadError (α × List Item) :=
  x.map fun r => (r.result, r.rest)

namespace Reader

variable {α β γ : Type} {n m : Nat}

theorem bind_apply (x : Reader α) (k : α → Reader β) (ts : List Item) :
    (x >>= k) ts = x ts >>= fun p => k p.1 p.2 := rfl

/-! ## Single tokens -/

/-- Takes the next token if `p` finds something in it. -/
def optional (p : Lexeme → Option β) : Reader (Option (Token × β)) := fun ts => do
  match ← takeIf p ts with
  | none => return (none, ts)
  | some r => return (some r.result, r.rest)

/-- Takes the next token, for which `p` has to find something. -/
def expected (p : Lexeme → Option β) (asked : Expected) (stop : Position) : Reader (Token × β) :=
  fun ts => forget (takeExpected p asked stop ts)

/-- Refuses what was read. -/
def refuse (e : ReadError) : Reader α := fun _ => .error e

/-- No step looks at the proof that its items are fewer. -/
theorem forget_bind {x : Except ReadError (Reading α n)}
    {f : Reading α n → Except ReadError (Reading β m)} {X : Reader α} {k : α → Reader β}
    {ts : List Item} (hx : forget x = X ts) (h : ∀ r, forget (f r) = k r.result r.rest) :
    forget (x >>= f) = (X >>= k) ts := by
  rw [bind_apply, ← hx]
  cases x with
  | error e => rfl
  | ok r => exact h r

theorem forget_bind_eq_self {x : Except ReadError (Reading α n)}
    {f : Reading α n → Except ReadError (Reading α m)}
    (h : ∀ r, forget (f r) = .ok (r.result, r.rest)) : forget (x >>= f) = forget x := by
  cases x with
  | error e => rfl
  | ok r => exact h r

theorem forget_takeIf_bind {p : Lexeme → Option β} {ts : List Item}
    {f : Option (Reading (Token × β) ts.length) → Except ReadError (Reading γ n)}
    {k : Option (Token × β) → Reader γ} (hnone : forget (f none) = k none ts)
    (hsome : ∀ r, forget (f (some r)) = k (some r.result) r.rest) :
    forget (takeIf p ts >>= f) = (optional p >>= k) ts := by
  rw [bind_apply, optional]
  cases takeIf p ts with
  | error e => rfl
  | ok found =>
    cases found with
    | none => exact hnone
    | some r => exact hsome r

/-! ## The grammar -/

open RawExpr

variable (stop : Position)

def conditional : Reader RawExpr := fun ts => forget (readConditional stop ts)

def chain (level : Nat) : Reader RawExpr := fun ts => forget (readChain stop level ts)

def operands (level : Nat) (left : RawExpr) : Reader RawExpr :=
  fun ts => forget (readOperands stop level left ts)

def power : Reader RawExpr := fun ts => forget (readPower stop ts)

def unary : Reader RawExpr := fun ts => forget (readUnary stop ts)

def indexed : Reader RawExpr := fun ts => forget (readIndexed stop ts)

def indices (array : RawExpr) : Reader RawExpr := fun ts => forget (readIndices stop array ts)

def primary : Reader RawExpr := fun ts => forget (readPrimary stop ts)

def arguments : Reader (List RawExpr) := fun ts => forget (readArguments stop ts)

def moreArguments : Reader (List RawExpr) := fun ts => forget (readMoreArguments stop ts)

def assignment : Reader RawExpr := fun ts => forget (readAssignment stop ts)

/-- The end of the items, where nothing more is to be read. -/
def ending (a : α) : Reader α := fun ts => do
  let t ← nextToken stop ts
  if t.lexeme = .endOfInput then return (a, []) else throw (.unexpected t .statementEnd)

/-- Statements leave nothing. -/
def statements : Reader (RawExpr × List (Token × RawExpr)) :=
  fun ts => (readStatements stop ts).map (·, [])

theorem conditional_eq : conditional stop = do
    let c ← chain stop Precedence.boolean
    match ← optional (Lexeme.isMark .question) with
    | none => return c
    | some (t, _) =>
      let x ← conditional stop
      let _ ← expected (Lexeme.isMark .colon) (.mark .colon) stop
      let y ← conditional stop
      return .conditional (tagged t) c x y := by
  funext ts
  rw [conditional, readConditional]
  refine forget_bind rfl fun _ => forget_takeIf_bind rfl fun _ => ?_
  exact forget_bind rfl fun _ => forget_bind rfl fun _ => forget_bind rfl fun _ => rfl

theorem chain_eq_power : chain stop Precedence.power = power stop := by
  funext ts
  rw [chain, readChain, if_neg (Nat.lt_irrefl _)]
  rfl

theorem chain_eq {level : Nat} (h : level < Precedence.power) : chain stop level = (do
    let left ← chain stop (level + 1)
    operands stop level left) := by
  funext ts
  rw [chain, readChain, if_pos h]
  exact forget_bind rfl fun _ => forget_bind_eq_self fun _ => rfl

theorem operands_eq (level : Nat) (left : RawExpr) : operands stop level left = (do
    match ← optional (Lexeme.operatorAt level) with
    | none => return left
    | some (t, op) =>
      let right ← chain stop (level + 1)
      operands stop level (.binary (tagged t) op left right)) := by
  funext ts
  rw [operands, readOperands]
  refine forget_takeIf_bind rfl fun _ => ?_
  exact forget_bind rfl fun _ => forget_bind_eq_self fun _ => rfl

theorem power_eq : power stop = do
    let base ← unary stop
    match ← optional (Lexeme.operatorAt Precedence.power) with
    | none => return base
    | some (t, op) =>
      let exponent ← power stop
      return .binary (tagged t) op base exponent := by
  funext ts
  rw [power, readPower]
  refine forget_bind rfl fun _ => forget_takeIf_bind rfl fun _ => ?_
  exact forget_bind rfl fun _ => rfl

theorem unary_eq : unary stop = do
    match ← optional Lexeme.sign? with
    | none => indexed stop
    | some (t, op) =>
      let e ← indexed stop
      return .unary (tagged t) op e := by
  funext ts
  rw [unary, readUnary]
  refine forget_takeIf_bind rfl fun _ => ?_
  exact forget_bind rfl fun _ => rfl

theorem indexed_eq : indexed stop = (do
    let array ← primary stop
    indices stop array) := by
  funext ts
  rw [indexed, readIndexed]
  exact forget_bind rfl fun _ => forget_bind_eq_self fun _ => rfl

theorem indices_eq (array : RawExpr) : indices stop array = (do
    match ← optional (Lexeme.isMark .leftBracket) with
    | none => return array
    | some (t, _) =>
      let index ← conditional stop
      let _ ← expected (Lexeme.isMark .rightBracket) (.mark .rightBracket) stop
      indices stop (.element (tagged t) array index)) := by
  funext ts
  rw [indices, readIndices]
  refine forget_takeIf_bind rfl fun _ => forget_bind rfl fun _ => forget_bind rfl fun _ => ?_
  exact forget_bind_eq_self fun _ => rfl

theorem primary_eq : primary stop = (do
    let (t, l) ← expected some .expression stop
    match l.literal? with
    | some (.ok v) => return .literal (tagged t) v
    | some (.error fault) => refuse (.grammar ⟨t.pos, fault⟩)
    | none =>
      match l with
      | .mark .leftParen =>
        let e ← conditional stop
        let _ ← expected (Lexeme.isMark .rightParen) (.mark .rightParen) stop
        return .unary (tagged t) .group e
      | .identifier x =>
        match ← optional (Lexeme.isMark .leftParen) with
        | none => return .var (tagged t) x
        | some _ =>
          let arguments ← arguments stop
          return .call (tagged t) x arguments
      | _ => refuse (.unexpected t .expression)) := by
  funext ts
  rw [primary, readPrimary]
  refine forget_bind rfl fun r => ?_
  obtain ⟨⟨t, l⟩, ts₁, h₁⟩ := r
  dsimp only
  rcases hl : l.literal? with _ | fault | v
  · cases l with
    | mark m =>
      cases m with
      | leftParen => exact forget_bind rfl fun _ => forget_bind rfl fun _ => rfl
      | _ => rfl
    | identifier x => exact forget_takeIf_bind rfl fun _ => forget_bind rfl fun _ => rfl
    | _ => rfl
  · rfl
  · rfl

theorem arguments_eq : arguments stop = (do
    match ← optional (Lexeme.isMark .rightParen) with
    | some _ => return []
    | none => moreArguments stop) := by
  funext ts
  rw [arguments, readArguments]
  exact forget_takeIf_bind rfl fun _ => rfl

theorem moreArguments_eq : moreArguments stop = do
    let e ← conditional stop
    let (_, more) ← expected Lexeme.argumentEnd? .argumentEnd stop
    if more then
      let es ← moreArguments stop
      return e :: es
    else
      return [e] := by
  funext ts
  rw [moreArguments, readMoreArguments]
  refine forget_bind rfl fun _ => forget_bind rfl fun r => ?_
  obtain ⟨⟨t, more⟩, ts₁, h₁⟩ := r
  cases more with
  | true => exact forget_bind rfl fun _ => rfl
  | false => rfl

theorem assignment_eq : assignment stop = do
    let target ← conditional stop
    match ← optional (Lexeme.isMark .assign) with
    | none => return target
    | some (t, _) =>
      let value ← assignment stop
      return .assignment (tagged t) target value := by
  funext ts
  rw [assignment, readAssignment]
  refine forget_bind rfl fun _ => forget_takeIf_bind rfl fun _ => ?_
  exact forget_bind rfl fun _ => rfl

theorem statements_eq : statements stop = (do
    let first ← assignment stop
    match ← optional (Lexeme.isMark .semicolon) with
    | some (t, _) =>
      let r ← statements stop
      return (first, (t, r.1) :: r.2)
    | none => ending stop (first, [])) := by
  funext ts
  rw [statements, readStatements, bind_apply, assignment]
  cases readAssignment stop ts with
  | error e => rfl
  | ok r =>
    obtain ⟨first, ts₁, h₁⟩ := r
    simp only [ok_bind, forget, Except.map]
    rw [bind_apply, optional]
    cases takeIf (Lexeme.isMark .semicolon) ts₁ with
    | error e => rfl
    | ok found =>
      cases found with
      | some r =>
        obtain ⟨⟨t, _⟩, ts₂, h₂⟩ := r
        simp only [ok_bind, pure_eq_ok]
        rw [bind_apply, statements]
        cases readStatements stop ts₂ <;> rfl
      | none =>
        simp only [ok_bind, pure_eq_ok, ending]
        cases nextToken stop ts₁ with
        | error e => rfl
        | ok t =>
          by_cases hend : t.lexeme = .endOfInput
          · simp only [ok_bind, if_pos hend]
          · simp only [ok_bind, if_neg hend]
            rfl

end Reader

end ComputedField
