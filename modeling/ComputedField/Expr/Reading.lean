import ComputedField.Expr.Basic
import ComputedField.Token.Scan

/-!
# Reading expressions

The grammar, one function for each of its symbols:

    statements  := assignment (";" assignment)*
    assignment  := conditional ("=" assignment)?
    conditional := boolean ("?" conditional ":" conditional)?
    boolean     := comparison (("&&" | "||") comparison)*
    comparison  := additive (("<" | "<=" | "==" | ">=" | ">" | "!=") additive)*
    additive    := term (("+" | "-") term)*
    term        := power (("*" | "/" | "%") power)*
    power       := unary ("^" power)?
    unary       := ("+" | "-" | "!")? indexed
    indexed     := primary ("[" conditional "]")*
    primary     := number | string | name | "(" conditional ")"
                 | name "(" (conditional ("," conditional)*)? ")"

Each function reads from the start of a list of scanned items and gives what is left of it, together
with the proof that it is shorter; the recursion ends because of these proofs. An item that is a
fault is met only when the grammar looks at it.
-/

set_option autoImplicit false

namespace ComputedField

/-! ## Faults -/

/-- What the grammar asks for. -/
inductive Expected where
  | expression
  | mark (m : Mark)
  /-- after a statement -/
  | statementEnd
  /-- after an argument -/
  | argumentEnd
deriving DecidableEq, Repr

def Expected.describe : Expected → String
  | expression => "an expression"
  | mark m => "'" ++ m.spelling ++ "'"
  | statementEnd => "';' or end of input"
  | argumentEnd => "',' or ')'"

inductive GrammarFault where
  | unexpected (found : Lexeme) (expected : Expected)
  /-- digits that stand for no number -/
  | illegalNumber (digits : String)
deriving DecidableEq, Repr

def GrammarFault.explain : GrammarFault → String
  | unexpected found expected =>
    "Expected " ++ expected.describe ++ " but found " ++ found.describe ++ "."
  | illegalNumber digits => "Illegal numeric literal '" ++ digits ++ "'."

instance : Explained GrammarFault := ⟨GrammarFault.explain⟩

/-- Why a text is no formula. -/
inductive ReadError where
  | scan (error : ScanError)
  | grammar (error : Located GrammarFault)
deriving DecidableEq, Repr

namespace ReadError

def pos : ReadError → Position
  | scan e => e.pos
  | grammar e => e.pos

def message : ReadError → String
  | scan e => e.message
  | grammar e => e.message

/-- The texts of the errors behind this one. -/
def causes : ReadError → List String
  | scan e => [e.message]
  | grammar _ => []

/-- The fault of a token that the grammar has no use for. -/
def unexpected (found : Token) (expected : Expected) : ReadError :=
  grammar ⟨found.pos, .unexpected found.lexeme expected⟩

end ReadError

/-! ## Single tokens -/

/-- Something read, and what is left: fewer than `n` items. -/
structure Reading (α : Type) (n : Nat) where
  result : α
  rest : List Item
  shorter : rest.length < n

/-- The next token; behind the last item, the end of input at `stop`. -/
def nextToken (stop : Position) : List Item → Except ReadError Token
  | [] => .ok ⟨.endOfInput, stop⟩
  | item :: _ => item.mapError .scan

/-- Takes the next token if `p` finds something in it. -/
def takeIf {β : Type} (p : Lexeme → Option β) (ts : List Item) :
    Except ReadError (Option (Reading (Token × β) ts.length)) :=
  match ts with
  | [] => .ok none
  | .error e :: _ => .error (.scan e)
  | .ok t :: rest => .ok ((p t.lexeme).map fun b => ⟨(t, b), rest, by simp⟩)

/-- Takes the next token, for which `p` has to find something. -/
def takeExpected {β : Type} (p : Lexeme → Option β) (expected : Expected) (stop : Position)
    (ts : List Item) : Except ReadError (Reading (Token × β) ts.length) :=
  match ts with
  | [] => .error (.unexpected ⟨.endOfInput, stop⟩ expected)
  | .error e :: _ => .error (.scan e)
  | .ok t :: rest =>
    match p t.lexeme with
    | some b => .ok ⟨(t, b), rest, by simp⟩
    | none => .error (.unexpected t expected)

/-- Holds of the mark `m` only. -/
def Lexeme.isMark (m : Mark) (l : Lexeme) : Option Unit := if l = .mark m then some () else none

/-- The binary operator that a mark stands for before types are known. -/
def BinaryOp.ofMark? : Mark → Option BinaryOp
  | .plus => some add
  | .minus => some subtract
  | .star => some multiply
  | .slash => some divide
  | .percent => some modulo
  | .caret => some power
  | .equal => some (relation .equal)
  | .notEqual => some (relation .notEqual)
  | .less => some (relation .less)
  | .lessEqual => some (relation .lessEqual)
  | .greater => some (relation .greater)
  | .greaterEqual => some (relation .greaterEqual)
  | .and => some (connective .and)
  | .or => some (connective .or)
  | _ => none

/-- The operator of a lexeme, if it binds as tightly as `level` says. -/
def Lexeme.operatorAt (level : Nat) : Lexeme → Option BinaryOp
  | mark m => (BinaryOp.ofMark? m).filter (·.precedence == level)
  | _ => none

/-- The sign or negation of a lexeme. -/
def Lexeme.sign? : Lexeme → Option UnaryOp
  | mark .plus => some .positive
  | mark .minus => some .negative
  | mark .bang => some .not
  | _ => none

/-- Whether another argument follows. -/
def Lexeme.argumentEnd? : Lexeme → Option Bool
  | mark .comma => some true
  | mark .rightParen => some false
  | _ => none

/-- The literals that are written as names. -/
def Literal.ofName? : String → Option Literal
  | "true" => some (boolean true)
  | "false" => some (boolean false)
  | "null" => some null
  | _ => none

/-- The literal of a lexeme; nothing for lexemes that are no literals. -/
def Lexeme.literal? : Lexeme → Option (Except GrammarFault Literal)
  | integer ds =>
    some <| match digitsValue? ds.toList with
      | some n => .ok (.integer n)
      | none => .error (.illegalNumber ds)
  | decimal ds =>
    some <| match Decimal.ofDigits? ds.toList with
      | some d => .ok (.decimal d)
      | none => .error (.illegalNumber ds)
  | string s => some (.ok (.string s))
  | identifier x => (Literal.ofName? x).map .ok
  | _ => none

/-! ## The grammar -/

namespace RawExpr

/-- The tag of a node that `t` stands for. -/
abbrev tagged (t : Token) : Tag Unit := ⟨t, ()⟩

mutual

def readConditional (stop : Position) (ts : List Item) :
    Except ReadError (Reading RawExpr ts.length) := do
  let ⟨c, ts₁, _⟩ ← readChain stop Precedence.boolean ts
  match ← takeIf (Lexeme.isMark .question) ts₁ with
  | none => return ⟨c, ts₁, by omega⟩
  | some ⟨(t, _), ts₂, _⟩ =>
    let ⟨x, ts₃, _⟩ ← readConditional stop ts₂
    let ⟨_, ts₄, _⟩ ← takeExpected (Lexeme.isMark .colon) (.mark .colon) stop ts₃
    let ⟨y, ts₅, _⟩ ← readConditional stop ts₄
    return ⟨.conditional (tagged t) c x y, ts₅, by omega⟩
termination_by 32 * ts.length + 21

/-- A chain of left-associative operators of one level, or of a tighter one. -/
def readChain (stop : Position) (level : Nat) (ts : List Item) :
    Except ReadError (Reading RawExpr ts.length) := do
  if level < Precedence.power then
    let ⟨left, ts₁, _⟩ ← readChain stop (level + 1) ts
    let ⟨e, ts₂, _⟩ ← readOperands stop level left ts₁
    return ⟨e, ts₂, by omega⟩
  else
    readPower stop ts
termination_by 32 * ts.length + (20 - min level 10)
decreasing_by all_goals (simp only [Precedence.power] at *; omega)

/-- The operators of a level behind their first operand. -/
def readOperands (stop : Position) (level : Nat) (left : RawExpr) (ts : List Item) :
    Except ReadError (Reading RawExpr (ts.length + 1)) := do
  match ← takeIf (Lexeme.operatorAt level) ts with
  | none => return ⟨left, ts, by omega⟩
  | some ⟨(t, op), ts₁, _⟩ =>
    let ⟨right, ts₂, _⟩ ← readChain stop (level + 1) ts₁
    let ⟨e, ts₃, _⟩ ← readOperands stop level (.binary (tagged t) op left right) ts₂
    return ⟨e, ts₃, by omega⟩
termination_by 32 * ts.length

def readPower (stop : Position) (ts : List Item) :
    Except ReadError (Reading RawExpr ts.length) := do
  let ⟨base, ts₁, _⟩ ← readUnary stop ts
  match ← takeIf (Lexeme.operatorAt Precedence.power) ts₁ with
  | none => return ⟨base, ts₁, by omega⟩
  | some ⟨(t, op), ts₂, _⟩ =>
    let ⟨exponent, ts₃, _⟩ ← readPower stop ts₂
    return ⟨.binary (tagged t) op base exponent, ts₃, by omega⟩
termination_by 32 * ts.length + 3

def readUnary (stop : Position) (ts : List Item) :
    Except ReadError (Reading RawExpr ts.length) := do
  match ← takeIf Lexeme.sign? ts with
  | none => readIndexed stop ts
  | some ⟨(t, op), ts₁, _⟩ =>
    let ⟨e, ts₂, _⟩ ← readIndexed stop ts₁
    return ⟨.unary (tagged t) op e, ts₂, by omega⟩
termination_by 32 * ts.length + 2

def readIndexed (stop : Position) (ts : List Item) :
    Except ReadError (Reading RawExpr ts.length) := do
  let ⟨array, ts₁, _⟩ ← readPrimary stop ts
  let ⟨e, ts₂, _⟩ ← readIndices stop array ts₁
  return ⟨e, ts₂, by omega⟩
termination_by 32 * ts.length + 1

/-- The indices behind an indexed expression. -/
def readIndices (stop : Position) (array : RawExpr) (ts : List Item) :
    Except ReadError (Reading RawExpr (ts.length + 1)) := do
  match ← takeIf (Lexeme.isMark .leftBracket) ts with
  | none => return ⟨array, ts, by omega⟩
  | some ⟨(t, _), ts₁, _⟩ =>
    let ⟨index, ts₂, _⟩ ← readConditional stop ts₁
    let ⟨_, ts₃, _⟩ ← takeExpected (Lexeme.isMark .rightBracket) (.mark .rightBracket) stop ts₂
    let ⟨e, ts₄, _⟩ ← readIndices stop (.element (tagged t) array index) ts₃
    return ⟨e, ts₄, by omega⟩
termination_by 32 * ts.length

def readPrimary (stop : Position) (ts : List Item) :
    Except ReadError (Reading RawExpr ts.length) := do
  let ⟨(t, l), ts₁, _⟩ ← takeExpected some .expression stop ts
  match l.literal? with
  | some (.ok v) => return ⟨.literal (tagged t) v, ts₁, by omega⟩
  | some (.error fault) => throw (.grammar ⟨t.pos, fault⟩)
  | none =>
    match l with
    | .mark .leftParen =>
      let ⟨e, ts₂, _⟩ ← readConditional stop ts₁
      let ⟨_, ts₃, _⟩ ← takeExpected (Lexeme.isMark .rightParen) (.mark .rightParen) stop ts₂
      return ⟨.unary (tagged t) .group e, ts₃, by omega⟩
    | .identifier x =>
      match ← takeIf (Lexeme.isMark .leftParen) ts₁ with
      | none => return ⟨.var (tagged t) x, ts₁, by omega⟩
      | some ⟨_, ts₂, _⟩ =>
        let ⟨arguments, ts₃, _⟩ ← readArguments stop ts₂
        return ⟨.call (tagged t) x arguments, ts₃, by omega⟩
    | _ => throw (.unexpected t .expression)
termination_by 32 * ts.length

/-- Arguments and the closing parenthesis, behind the opening one. -/
def readArguments (stop : Position) (ts : List Item) :
    Except ReadError (Reading (List RawExpr) ts.length) := do
  match ← takeIf (Lexeme.isMark .rightParen) ts with
  | some ⟨_, ts₁, _⟩ => return ⟨[], ts₁, by omega⟩
  | none => readMoreArguments stop ts
termination_by 32 * ts.length + 23

/-- At least one argument, and the closing parenthesis. -/
def readMoreArguments (stop : Position) (ts : List Item) :
    Except ReadError (Reading (List RawExpr) ts.length) := do
  let ⟨e, ts₁, _⟩ ← readConditional stop ts
  let ⟨(_, more), ts₂, _⟩ ← takeExpected Lexeme.argumentEnd? .argumentEnd stop ts₁
  if more then
    let ⟨es, ts₃, _⟩ ← readMoreArguments stop ts₂
    return ⟨e :: es, ts₃, by omega⟩
  else
    return ⟨[e], ts₂, by omega⟩
termination_by 32 * ts.length + 22

end

def readAssignment (stop : Position) (ts : List Item) :
    Except ReadError (Reading RawExpr ts.length) := do
  let ⟨target, ts₁, _⟩ ← readConditional stop ts
  match ← takeIf (Lexeme.isMark .assign) ts₁ with
  | none => return ⟨target, ts₁, by omega⟩
  | some ⟨(t, _), ts₂, _⟩ =>
    let ⟨value, ts₃, _⟩ ← readAssignment stop ts₂
    return ⟨.assignment (tagged t) target value, ts₃, by omega⟩
termination_by ts.length

/-- A statement, and those that follow it up to the end of input, each with its semicolon. -/
def readStatements (stop : Position) (ts : List Item) :
    Except ReadError (RawExpr × List (Token × RawExpr)) := do
  let ⟨first, ts₁, _⟩ ← readAssignment stop ts
  match ← takeIf (Lexeme.isMark .semicolon) ts₁ with
  | some ⟨(t, _), ts₂, _⟩ =>
    let (next, more) ← readStatements stop ts₂
    return (first, (t, next) :: more)
  | none =>
    let t ← nextToken stop ts₁
    if t.lexeme = .endOfInput then return (first, []) else throw (.unexpected t .statementEnd)
termination_by ts.length

/-- One statement by itself, several as a sequence that has the token of the first semicolon. -/
def ofStatements (first : RawExpr) (others : List (Token × RawExpr)) : RawExpr :=
  match others with
  | [] => first
  | (t, _) :: _ => .sequence (tagged t) (first :: others.map Prod.snd)

/-- Reads a scanned text. -/
def ofScan (scan : Scan) : Except ReadError RawExpr := do
  let (first, others) ← readStatements scan.stop scan.items
  return ofStatements first others

/-- Reads a text. -/
def ofText (text : String) : Except ReadError RawExpr := ofScan (.ofText text)

end RawExpr

end ComputedField
