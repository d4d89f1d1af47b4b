import ComputedField.Position

/-!
# Tokens

What the text of a formula is made of: names, literals and marks, each with the place of its first
character.
-/

set_option autoImplicit false

namespace ComputedField

/-- Operators and punctuation. -/
inductive Mark where
  | semicolon
  | plus
  | minus
  | star
  | slash
  | percent
  | caret
  | bang
  | and
  | or
  | equal
  | notEqual
  | less
  | lessEqual
  | greater
  | greaterEqual
  | assign
  | leftParen
  | rightParen
  | leftBracket
  | rightBracket
  | comma
  | question
  | colon
deriving DecidableEq, Repr, Inhabited

/-- How a mark is written. -/
def Mark.spelling : Mark → String
  | semicolon => ";"
  | plus => "+"
  | minus => "-"
  | star => "*"
  | slash => "/"
  | percent => "%"
  | caret => "^"
  | bang => "!"
  | and => "&&"
  | or => "||"
  | equal => "=="
  | notEqual => "!="
  | less => "<"
  | lessEqual => "<="
  | greater => ">"
  | greaterEqual => ">="
  | assign => "="
  | leftParen => "("
  | rightParen => ")"
  | leftBracket => "["
  | rightBracket => "]"
  | comma => ","
  | question => "?"
  | colon => ":"

/-- What a token says. -/
inductive Lexeme where
  | endOfInput
  | identifier (name : String)
  /-- a string literal; `value` is what it stands for, without quotes and escapes -/
  | string (value : String)
  /-- a number without a point, as written -/
  | integer (digits : String)
  /-- a number with one point, as written -/
  | decimal (digits : String)
  | mark (m : Mark)
deriving DecidableEq, Repr, Inhabited

namespace Lexeme

/-- The sort of lexeme, for the reader. -/
def sort : Lexeme → String
  | endOfInput => "end of input"
  | identifier _ => "identifier"
  | string _ => "string literal"
  | integer _ => "integer literal"
  | decimal _ => "decimal literal"
  | mark m => "'" ++ m.spelling ++ "'"

/-- The text that a lexeme carries; marks carry none. -/
def text? : Lexeme → Option String
  | endOfInput | mark _ => none
  | identifier s | string s | integer s | decimal s => some s

/-- The sort of lexeme with its text. -/
def describe (l : Lexeme) : String :=
  match l.text? with
  | some text => l.sort ++ " '" ++ text ++ "'"
  | none => l.sort

end Lexeme

/-- A lexeme and the place of its first character. -/
structure Token where
  lexeme : Lexeme
  pos : Position
deriving DecidableEq, Repr, Inhabited

end ComputedField
