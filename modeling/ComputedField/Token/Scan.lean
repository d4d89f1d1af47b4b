import ComputedField.Token.Basic
import ComputedField.Token.Lines

/-!
# Scanning

How a text falls apart into blanks, tokens and faults. `Piece.next` reads the longest piece at the
start of a text, and `Scan.ofText` all of them: a fault takes up its own characters and the scan
goes on behind it. `tokenize` gives the tokens of a text without faults.
-/

set_option autoImplicit false

namespace ComputedField

/-- Why a piece of text is no token. -/
inductive ScanFault where
  | unexpectedCharacter (c : Char)
  /-- a run of digits and points with more than one point -/
  | malformedNumber (text : String)
  | unterminatedString
  /-- a backslash at the end of the text, inside a string -/
  | unterminatedEscape
  /-- the first half of a mark of two equal characters, alone -/
  | halfMark (whole : Mark)
deriving DecidableEq, Repr

def ScanFault.explain : ScanFault → String
  | unexpectedCharacter c => "Unexpected character '" ++ c.toString ++ "'."
  | malformedNumber text =>
    "Malformed number '" ++ text ++ "': a number may contain at most one '.'."
  | unterminatedString => "Unterminated string literal."
  | unterminatedEscape => "Unterminated escape sequence at end of input."
  | halfMark whole => "Expected operator '" ++ whole.spelling ++ "'."

instance : Explained ScanFault := ⟨ScanFault.explain⟩

abbrev ScanError := Located ScanFault

/-! ## Character classes -/

/-- Characters that may stand between tokens. -/
def isBlank (c : Char) : Bool := c == ' ' || c == '\t' || c == '\r' || c == '\n'

def isNameStart (c : Char) : Bool := c.isAlpha || c == '_'

def isNamePart (c : Char) : Bool := isNameStart c || c.isDigit

def isNumberPart (c : Char) : Bool := c.isDigit || c == '.'

/-! ## One piece -/

/-- A piece of text that was read, what it says, and the text behind it. -/
structure Piece (α : Type) where
  spelling : List Char
  content : Except ScanFault α
  rest : List Char

/-- A piece of one character. -/
def Piece.one {α : Type} (c : Char) (rest : List Char) (content : Except ScanFault α) : Piece α :=
  ⟨[c], content, rest⟩

/-- The inside of a string and its closing quote. A backslash takes the next character as it is. -/
def Piece.stringBody : List Char → Piece (List Char)
  | [] => ⟨[], .error .unterminatedString, []⟩
  | '\'' :: rest => one '\'' rest (.ok [])
  | ['\\'] => one '\\' [] (.error .unterminatedEscape)
  | '\\' :: c :: rest =>
    let tail := stringBody rest
    ⟨'\\' :: c :: tail.spelling, tail.content.map (c :: ·), tail.rest⟩
  | c :: rest =>
    let tail := stringBody rest
    ⟨c :: tail.spelling, tail.content.map (c :: ·), tail.rest⟩

/-- What a run of digits and points says. -/
def numberLexeme (run : List Char) : Except ScanFault Lexeme :=
  match run.count '.' with
  | 0 => .ok (.integer (String.ofList run))
  | 1 => .ok (.decimal (String.ofList run))
  | _ => .error (.malformedNumber (String.ofList run))

/-- The mark that `c` begins, of two characters where there is one. A lone equals sign at the very
end of the text is read as the test for equality. -/
def Piece.ofMark (c : Char) (rest : List Char) : Piece Lexeme :=
  let single (m : Mark) : Piece Lexeme := one c rest (.ok (.mark m))
  let double (d : Char) (rest : List Char) (m : Mark) : Piece Lexeme :=
    ⟨[c, d], .ok (.mark m), rest⟩
  match c, rest with
  | ';', _ => single .semicolon
  | '+', _ => single .plus
  | '-', _ => single .minus
  | '*', _ => single .star
  | '/', _ => single .slash
  | '%', _ => single .percent
  | '^', _ => single .caret
  | '(', _ => single .leftParen
  | ')', _ => single .rightParen
  | '[', _ => single .leftBracket
  | ']', _ => single .rightBracket
  | ',', _ => single .comma
  | '?', _ => single .question
  | ':', _ => single .colon
  | '!', '=' :: rest => double '=' rest .notEqual
  | '!', _ => single .bang
  | '<', '=' :: rest => double '=' rest .lessEqual
  | '<', _ => single .less
  | '>', '=' :: rest => double '=' rest .greaterEqual
  | '>', _ => single .greater
  | '=', '=' :: rest => double '=' rest .equal
  | '=', [] => single .equal
  | '=', _ => single .assign
  | '&', '&' :: rest => double '&' rest .and
  | '&', _ => one c rest (.error (.halfMark .and))
  | '|', '|' :: rest => double '|' rest .or
  | '|', _ => one c rest (.error (.halfMark .or))
  | _, _ => one c rest (.error (.unexpectedCharacter c))

/-- The longest piece at the start of `c :: rest`, where `c` is no blank. -/
def Piece.next (c : Char) (rest : List Char) : Piece Lexeme :=
  if isNameStart c then
    let tail := rest.takeWhile isNamePart
    ⟨c :: tail, .ok (.identifier (String.ofList (c :: tail))), rest.dropWhile isNamePart⟩
  else if c.isDigit then
    let tail := rest.takeWhile isNumberPart
    ⟨c :: tail, numberLexeme (c :: tail), rest.dropWhile isNumberPart⟩
  else if c = '\'' then
    let body := stringBody rest
    ⟨c :: body.spelling, body.content.map fun s => .string (String.ofList s), body.rest⟩
  else ofMark c rest

/-! ## Nothing is lost -/

theorem Piece.stringBody_append (cs : List Char) :
    (stringBody cs).spelling ++ (stringBody cs).rest = cs := by
  fun_induction stringBody cs with
  | case1 => rfl
  | case2 => rfl
  | case3 => rfl
  | case4 c rest tail ih => exact congrArg (fun cs => '\\' :: c :: cs) ih
  | case5 c rest _ _ _ tail ih => exact congrArg (c :: ·) ih

theorem Piece.ofMark_append (c : Char) (rest : List Char) :
    (ofMark c rest).spelling ++ (ofMark c rest).rest = c :: rest := by
  unfold ofMark
  simp only
  split <;> simp [one]

theorem Piece.next_append (c : Char) (rest : List Char) :
    (next c rest).spelling ++ (next c rest).rest = c :: rest := by
  unfold next
  split
  · simp
  · split
    · simp
    · split
      · simp [stringBody_append]
      · exact ofMark_append c rest

theorem Piece.ofMark_spelling_ne_nil (c : Char) (rest : List Char) :
    (ofMark c rest).spelling ≠ [] := by
  unfold ofMark
  simp only
  split <;> simp [one]

theorem Piece.next_spelling_ne_nil (c : Char) (rest : List Char) : (next c rest).spelling ≠ [] := by
  unfold next
  split
  · simp
  · split
    · simp
    · split
      · simp
      · exact ofMark_spelling_ne_nil c rest

theorem Piece.length_next_rest (c : Char) (rest : List Char) :
    (next c rest).rest.length ≤ rest.length := by
  have h := congrArg List.length (next_append c rest)
  have := List.length_pos_iff.mpr (next_spelling_ne_nil c rest)
  simp only [List.length_append, List.length_cons] at h
  omega

/-! ## All pieces -/

/-- A token, or the fault that stands in its place. -/
abbrev Item := Except ScanError Token

/-- The items of a text in their order, and the place where the text ends. -/
structure Scan where
  items : List Item
  stop : Position

namespace Scan

/-- Scans `cs`, whose first character stands at the byte `offset` of a text with these lines. -/
def itemsFrom (lines : Lines) (offset : Nat) (cs : List Char) : List Item :=
  match cs with
  | [] => []
  | c :: rest =>
    if isBlank c then itemsFrom lines (offset + c.utf8Size) rest
    else
      let piece := Piece.next c rest
      let pos := lines.position offset
      (pos.report piece.content).map (⟨·, pos⟩) ::
        itemsFrom lines (offset + byteLength piece.spelling) piece.rest
termination_by cs.length
decreasing_by
  · simp
  · have := Piece.length_next_rest c rest
    simp only [List.length_cons]
    omega

/-- Scans a whole text, which ends behind its last byte. -/
def ofText (text : String) : Scan :=
  let lines := Lines.ofText text
  ⟨itemsFrom lines 0 text.toList, lines.position text.utf8ByteSize⟩

/-- The next item; behind the last one, the end of input as often as it is asked for. -/
def peek (s : Scan) : Item :=
  match s.items with
  | item :: _ => item
  | [] => .ok ⟨.endOfInput, s.stop⟩

/-- The scan behind the next item. -/
def advance (s : Scan) : Scan := { s with items := s.items.tail }

/-- All tokens, or the first fault. -/
def tokens (s : Scan) : Except ScanError (List Token) := s.items.mapM id

end Scan

/-- The tokens of a text, without the end of input. -/
def tokenize (text : String) : Except ScanError (List Token) := (Scan.ofText text).tokens

end ComputedField
