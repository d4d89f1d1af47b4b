import ComputedField.Expr.Basic

/-!
# Writing expressions

An expression is written as a row of lexemes with blanks between some of them. Parentheses of the
formula are kept; more are added only where a part binds looser than its place allows, so that a
folded tree, too, is written as a text that reads back as itself.
-/

set_option autoImplicit false

namespace ComputedField

/-! ## Spelling -/

/-- The inside of a string literal: a backslash goes before quotes and backslashes. -/
def escaped : List Char → List Char
  | [] => []
  | c :: cs => if c = '\'' ∨ c = '\\' then '\\' :: c :: escaped cs else c :: escaped cs

/-- How a lexeme is written; the end of input takes no space. -/
def Lexeme.spelling : Lexeme → List Char
  | endOfInput => []
  | identifier s | integer s | decimal s => s.toList
  | string s => '\'' :: escaped s.toList ++ ['\'']
  | mark m => m.spelling.toList

/-- A part of a line: a lexeme, or the blank between two. -/
inductive Word where
  | lexeme (l : Lexeme)
  | blank
deriving DecidableEq, Repr

namespace Word

abbrev mark (m : Mark) : Word := lexeme (.mark m)

abbrev name (s : String) : Word := lexeme (.identifier s)

def spelling : Word → List Char
  | lexeme l => l.spelling
  | blank => [' ']

/-- The text of a row of words. -/
def line (ws : List Word) : String := String.ofList (ws.flatMap spelling)

/-- `ws`, inside parentheses if `needed`. -/
def enclosedIf (needed : Bool) (ws : List Word) : List Word :=
  if needed then mark .leftParen :: ws ++ [mark .rightParen] else ws

/-- The number `n` with its sign. -/
def signedInteger (n : Int) : List Word :=
  (if n < 0 then [mark .minus] else []) ++ [lexeme (.integer (integerText n.natAbs))]

/-- The number `d` with its sign, in positional notation. -/
def signedDecimal (d : Decimal) : List Word :=
  (if d.isNegative then [mark .minus] else [])
    ++ [lexeme (.decimal (String.ofList (Decimal.plainDigits d.unscaled.natAbs d.scale)))]

end Word

/-- A literal as it is written. There is no form for a date of its own; the call that makes the
date stands in its place. -/
def Literal.words : Literal → List Word
  | boolean b => [.name (if b then "true" else "false")]
  | integer n => Word.signedInteger n
  | decimal d => Word.signedDecimal d
  | string s => [.lexeme (.string s)]
  | date d =>
    [.name "date", .mark .leftParen] ++ Word.signedInteger d.year ++ [.mark .comma, .blank]
      ++ Word.signedInteger d.month ++ [.mark .comma, .blank] ++ Word.signedInteger d.day
      ++ [.mark .rightParen]
  | null => [.name "null"]

/-- The sign before the operand; parentheses stand around it and have none. -/
def UnaryOp.mark? : UnaryOp → Option Mark
  | positive => some .plus
  | negative => some .minus
  | not => some .bang
  | group => none

/-- The mark between the operands; concatenation is written like addition. -/
def BinaryOp.mark : BinaryOp → Mark
  | arithmetic .add | concat => .plus
  | arithmetic .subtract => .minus
  | arithmetic .multiply => .star
  | arithmetic .divide => .slash
  | arithmetic .modulo => .percent
  | arithmetic .power => .caret
  | relation .equal => .equal
  | relation .notEqual => .notEqual
  | relation .less => .less
  | relation .lessEqual => .lessEqual
  | relation .greater => .greater
  | relation .greaterEqual => .greaterEqual
  | connective .and => .and
  | connective .or => .or

/-- How the operator is written. -/
def BinaryOp.symbol (op : BinaryOp) : String := op.mark.spelling

/-- The loosest left operand that needs no parentheses. -/
def BinaryOp.leftBound (op : BinaryOp) : Nat :=
  if op.isRightAssociative then op.precedence + 1 else op.precedence

/-- The loosest right operand that needs no parentheses. -/
def BinaryOp.rightBound (op : BinaryOp) : Nat :=
  if op.isRightAssociative then op.precedence else op.precedence + 1

/-! ## Layout -/

namespace Expr

variable {α : Type}

mutual

/-- The words of an expression where nothing looser than `bound` may stand alone. -/
def wordsAt (bound : Nat) (e : Expr α) : List Word :=
  Word.enclosedIf (e.precedence < bound) <|
    match e with
    | literal _ v => v.words
    | var _ x => [.name x]
    | unary _ op x =>
      match op.mark? with
      | some m => .mark m :: x.wordsAt Precedence.primary
      | none => .mark .leftParen :: x.wordsAt Precedence.conditional ++ [.mark .rightParen]
    | binary _ op l r =>
      l.wordsAt op.leftBound ++ [.blank, .mark op.mark, .blank] ++ r.wordsAt op.rightBound
    | assignment _ x v =>
      x.wordsAt Precedence.conditional ++ [.blank, .mark .assign, .blank]
        ++ v.wordsAt Precedence.assignment
    | conditional _ c x y =>
      c.wordsAt Precedence.boolean ++ [.blank, .mark .question, .blank]
        ++ x.wordsAt Precedence.conditional ++ [.blank, .mark .colon, .blank]
        ++ y.wordsAt Precedence.conditional
    | element _ a i =>
      a.wordsAt Precedence.primary ++ [.mark .leftBracket] ++ i.wordsAt Precedence.conditional
        ++ [.mark .rightBracket]
    | call _ f as =>
      [.name f, .mark .leftParen]
        ++ separated [.mark .comma, .blank] Precedence.conditional as ++ [.mark .rightParen]
    | sequence _ ss => separated [.mark .semicolon, .blank] Precedence.assignment ss
termination_by structural e

/-- Expressions with `separator` between them. -/
def separated (separator : List Word) (bound : Nat) (es : List (Expr α)) : List Word :=
  match es with
  | [] => []
  | [e] => e.wordsAt bound
  | e :: es => e.wordsAt bound ++ separator ++ separated separator bound es
termination_by structural es

end

/-- The words of an expression that stands alone. -/
def words (e : Expr α) : List Word := e.wordsAt Precedence.sequence

/-- The text of an expression. -/
def text (e : Expr α) : String := Word.line e.words

end Expr

end ComputedField
