import ComputedField.CommandLine.Answer

/-!
# The command

Reads the file that an invocation names, and hands everything else to `Outcome.ofWords`.
-/

set_option autoImplicit false

namespace ComputedField

/-- The text of a file, if it can be read. -/
def readText (path : String) : IO (Option String) := do
  try
    return some (← IO.FS.readFile path)
  catch _ =>
    return none

/-- Answers a command line and gives the exit code. -/
def answerCommand (words : List String) : IO UInt32 := do
  let text ←
    match (Invocation.ofWords? words).bind Invocation.file with
    | some path => readText path
    | none => pure none
  let outcome := Outcome.ofWords words fun _ => text
  IO.print outcome.standardOutput
  IO.eprint outcome.standardError
  return outcome.exitCode.toUInt32

end ComputedField

def main (words : List String) : IO UInt32 := ComputedField.answerCommand words
