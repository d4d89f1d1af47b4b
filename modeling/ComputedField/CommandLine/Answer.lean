import ComputedField.CommandLine.Invocation
import ComputedField.Compilation
import ComputedField.Environment.Library

/-!
# Answers

What is written for an invocation. Variables are declared as `name:type=formula` or `name:type`, in
order, and the formula of a declaration may use the variables before it.
-/

set_option autoImplicit false

namespace ComputedField

/-- A variable as it is declared on the command line. -/
structure Declaration where
  name : String
  type : Ty
  /-- the formula for its value; without one it is null -/
  formula : Option String
deriving Repr

/-- Reads a declaration, or says what is wrong with it. -/
def Declaration.ofText (text : String) : Except String Declaration :=
  let (signature, formula) :=
    match Text.splitOnce? '=' text.toList with
    | some (signature, formula) => (signature, some (String.ofList formula))
    | none => (text.toList, none)
  match Text.splitOnce? ':' signature with
  | none => .error ("Expected 'name:type=expression' but found '" ++ text ++ "'.")
  | some (name, type) =>
    match Ty.ofName (String.ofList type) with
    | .error e => .error e.message
    | .ok type => .ok ⟨String.ofList (Text.trim name), type, formula⟩

/-- An environment that no host stands behind. -/
abbrev ClosedEnvironment := Environment Unit

/-- The environment with one more variable. -/
def Declaration.addTo (options : CompileOptions) (env : ClosedEnvironment) (d : Declaration) :
    Except String ClosedEnvironment :=
  match d.formula with
  | none => .ok (env.define d.name d.type .null)
  | some text =>
    let ran := env.run () options text
    match ran.outcome with
    | .ok value => .ok (ran.environment.define d.name d.type value)
    | .error e => .error (d.name ++ ": " ++ e.message)

/-- The standard environment with the declared variables. -/
def declareAll (options : CompileOptions) (declarations : List String) :
    Except String ClosedEnvironment :=
  declarations.foldlM
    (fun env text => do
      let d ← Declaration.ofText text
      d.addTo options env)
    .standard

namespace Invocation

/-- The text of the formula; `readFile` gives the text of a file that can be read. -/
def sourceText (i : Invocation) (readFile : String → Option String) : Except String String :=
  match i.file, i.formula with
  | some path, _ =>
    match readFile path with
    | some text => .ok text
    | none =>
      .error ("Failed to read the input file '" ++ path ++ "'. Perhaps this file does not exist?")
  | none, some text => .ok text
  | none, none => .error "No formula given."

/-- The text of the value, or of the compiled formula, or of what went wrong. -/
def answer (i : Invocation) (readFile : String → Option String) : Except String String := do
  let text ← i.sourceText readFile
  let some context := MathContext.ofPrecision? i.precision i.rounding
    | throw "Precision must be positive."
  let options : CompileOptions := ⟨context, i.simplify, false⟩
  let env ← declareAll options i.declarations
  let tree ← (compile env.declarations options i.expected text).outcome.mapError
    CompileError.message
  if i.printTree then return tree.text
  let value ← (env.evaluate () context tree).outcome.mapError Located.message
  return value.text

end Invocation

/-! ## Exit codes -/

/-- What a command leaves behind. -/
structure Outcome where
  exitCode : Nat
  standardOutput : String
  standardError : String
deriving DecidableEq, Repr

/-- Answers a command line: exit code 2 for one that makes no sense, 1 for a failure. -/
def Outcome.ofWords (words : List String) (readFile : String → Option String) : Outcome :=
  match Invocation.ofWords? words with
  | none => ⟨2, "", "The arguments are not understood.\n"⟩
  | some i =>
    match i.answer readFile with
    | .ok text => ⟨0, text ++ "\n", ""⟩
    | .error message => ⟨1, "", message ++ "\n"⟩

end ComputedField
