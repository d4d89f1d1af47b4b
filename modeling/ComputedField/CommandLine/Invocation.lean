import ComputedField.Decimal.Rounding
import ComputedField.Text.Blank
import ComputedField.Ty

/-!
# Invocations

What the words of a command line ask for. Settings take a value, which is the next word or stands
behind an equals sign or, for a one-letter name, directly behind the name. Behind the word of two
hyphens every word is a formula.
-/

set_option autoImplicit false

namespace ComputedField

attribute [local instance (2000)] instPowNat

/-- What can be set to a value. -/
inductive Setting where
  | file
  | declaration
  | precision
  | rounding
  | expected
deriving DecidableEq, Repr

/-- What can be switched on. -/
inductive Switch where
  | noSimplify
  | printTree
deriving DecidableEq, Repr

/-- A part of a command line. -/
inductive Argument where
  | setting (s : Setting) (value : String)
  | switch (s : Switch)
  | formula (text : String)
deriving DecidableEq, Repr

namespace Setting

def ofLongName? : String → Option Setting
  | "file" => some file
  | "var" => some declaration
  | "precision" => some precision
  | "rounding" => some rounding
  | "type" => some expected
  | _ => none

def ofShortName? : Char → Option Setting
  | 'f' => some file
  | 'v' => some declaration
  | 'e' => some expected
  | _ => none

end Setting

def Switch.ofLongName? : String → Option Switch
  | "no-simplify" => some noSimplify
  | "print-ast" => some printTree
  | _ => none

namespace Argument

/-- What a word is by itself. A setting without a value takes the next word. -/
inductive Form where
  | setting (s : Setting) (value : Option String)
  | switch (s : Switch)
  | formula
  | unknown
deriving DecidableEq, Repr

/-- The form of a word that has two hyphens in front of `cs`. -/
def Form.ofLong (cs : List Char) : Form :=
  let (name, value) :=
    match Text.splitOnce? '=' cs with
    | some (name, value) => (String.ofList name, some (String.ofList value))
    | none => (String.ofList cs, none)
  match Setting.ofLongName? name, Switch.ofLongName? name, value with
  | some s, _, value => setting s value
  | none, some s, none => switch s
  | _, _, _ => unknown

/-- The value that stands directly behind a one-letter name, after an equals sign or not. -/
def attached? : List Char → Option String
  | [] => none
  | '=' :: value => some (String.ofList value)
  | value => some (String.ofList value)

def Form.ofWord (word : String) : Form :=
  match word.toList with
  | '-' :: '-' :: cs => ofLong cs
  | '-' :: c :: cs =>
    match Setting.ofShortName? c with
    | some s => setting s (attached? cs)
    | none => unknown
  | _ => formula

/-- Whether a word can be the value of the setting before it: it does not begin with a hyphen, or
is nothing but one. -/
def isValue (word : String) : Bool := word.toList.head? != some '-' || word == "-"

/-- The parts of a command line; nothing if a word has no meaning where it stands. -/
def ofWords? : List String → Option (List Argument)
  | [] => some []
  | word :: words =>
    if word = "--" then some (words.map formula)
    else
      match Form.ofWord word with
      | .setting s (some value) => (ofWords? words).map (setting s value :: ·)
      | .setting s none =>
        match words with
        | value :: words =>
          if isValue value then (ofWords? words).map (setting s value :: ·) else none
        | [] => none
      | .switch s => (ofWords? words).map (switch s :: ·)
      | .formula => (ofWords? words).map (formula word :: ·)
      | .unknown => none

def valueOf? (s : Setting) : Argument → Option String
  | setting t value => if t = s then some value else none
  | _ => none

def formula? : Argument → Option String
  | formula text => some text
  | _ => none

end Argument

/-! ## What is asked for -/

structure Invocation where
  /-- the file that holds the formula -/
  file : Option String
  formula : Option String
  declarations : List String
  precision : Nat
  rounding : RoundingMode
  simplify : Bool
  /-- whether to write the compiled formula instead of its value -/
  printTree : Bool
  expected : Option Ty
deriving Repr

namespace Invocation

/-- The only element, if there is one; nothing if there are several. -/
def atMostOne? {α : Type} : List α → Option (Option α)
  | [] => some none
  | [a] => some (some a)
  | _ => none

/-- A natural number that fits a word of 64 bits, with or without a plus sign. -/
def wordOfText? (text : String) : Option Nat := do
  let digits :=
    match text.toList with
    | '+' :: cs => cs
    | cs => cs
  let n ← digitsValue? digits
  if n < 2 ^ (64 : Nat) then some n else none

/-- What `read` makes of the value of a setting that may be given once, and `default` if it is not
given. -/
def once? {α : Type} (arguments : List Argument) (s : Setting) (default : α)
    (read : String → Option α) : Option α :=
  match atMostOne? (arguments.filterMap (Argument.valueOf? s)) with
  | some none => some default
  | some (some text) => read text
  | none => none

/-- Whether a switch is on; it may be given once. -/
def isOn? (arguments : List Argument) (s : Switch) : Option Bool :=
  (atMostOne? (arguments.filter (· == .switch s))).map Option.isSome

def typeOfText? (text : String) : Option (Option Ty) :=
  match Ty.ofName text with
  | .ok t => some (some t)
  | .error _ => none

/-- What a command line asks for; nothing if it makes no sense. There is one source at most: a
formula or a file. -/
def ofWords? (words : List String) : Option Invocation := do
  let arguments ← Argument.ofWords? words
  let file ← once? arguments .file none fun path => if path = "" then none else some (some path)
  let formula ← atMostOne? (arguments.filterMap Argument.formula?)
  let precision ← once? arguments .precision MathContext.standard.precision wordOfText?
  let rounding ← once? arguments .rounding MathContext.standard.rounding RoundingMode.ofName?
  let expected ← once? arguments .expected none typeOfText?
  let noSimplify ← isOn? arguments .noSimplify
  let printTree ← isOn? arguments .printTree
  if file.isSome && formula.isSome then none
  else
    return { file, formula, precision, rounding, printTree, expected
             declarations := arguments.filterMap (Argument.valueOf? .declaration)
             simplify := !noSimplify }

end Invocation

end ComputedField
