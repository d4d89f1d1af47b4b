import ComputedField.Text.CaseTable

/-!
# Letter case

Upper and lower case of a text by the full mappings of the character standard, without regard to a
language. One mapping depends on its surroundings: the lower case of a capital sigma at the end of
a word.
-/

set_option autoImplicit false

namespace ComputedField.Text

/-- The character that `runs` maps `c` to, if any. -/
def mapRuns (runs : List CaseRun) (c : Char) : Option Char :=
  (runs.find? fun r => r.first ≤ c.toNat && c.toNat ≤ r.last && (c.toNat - r.first) % r.step == 0).map
    fun r => Char.ofNat ((c.toNat : Int) + r.offset).toNat

/-- The characters that stand for `c`: a sequence of its own, else one character, else itself. -/
def mapCase (sequences : List (Nat × List Nat)) (runs : List CaseRun) (c : Char) : List Char :=
  match sequences.lookup c.toNat with
  | some codes => codes.map Char.ofNat
  | none => [(mapRuns runs c).getD c]

def inRanges (ranges : List (Nat × Nat)) (c : Char) : Bool :=
  ranges.any fun r => r.1 ≤ c.toNat && c.toNat ≤ r.2

def isCased (c : Char) : Bool := inRanges casedRanges c

def isCaseIgnorable (c : Char) : Bool := inRanges caseIgnorableRanges c

/-- Whether a cased character comes next, past any that case ignores. -/
def casedNext (cs : List Char) : Bool :=
  match cs.dropWhile isCaseIgnorable with
  | [] => false
  | c :: _ => isCased c

/-- Lower case of `cs`, where `before` holds the characters before it, nearest first. A capital
sigma is final if a cased character stands before it and none after it. -/
def lowerFrom (before : List Char) : List Char → List Char
  | [] => []
  | c :: cs =>
    let mapped :=
      if c = 'Σ' then (if casedNext before && !casedNext cs then ['ς'] else ['σ'])
      else mapCase lowerSequences lowerRuns c
    mapped ++ lowerFrom (c :: before) cs

/-- The text in lower case. -/
def lower (s : String) : String := String.ofList (lowerFrom [] s.toList)

/-- The text in upper case. -/
def upper (s : String) : String :=
  String.ofList (s.toList.flatMap (mapCase upperSequences upperRuns))

end ComputedField.Text
