import ComputedField.Value.Fault

/-!
# Elements of arrays

Reading and writing the element that a list of indices leads to. Null arrays, null indices and
indices out of range lead nowhere: reading gives null, writing does nothing.
-/

set_option autoImplicit false

namespace ComputedField

namespace Value

/-- The place of `index` in an array of `length` items, if it is one of its places. -/
def position? (index : Value) (length : Nat) : Except EvalFault (Option Nat) :=
  match index with
  | null => .ok none
  | integer n => .ok (if 0 ≤ n ∧ n.toNat < length then some n.toNat else none)
  | v => .error (.kind (.index v.kind))

/-- The element of an array at `index`. -/
def element (array index : Value) : Except EvalFault Value :=
  match array with
  | null => .ok null
  | .array items => do
    match ← position? index items.length with
    | some i => return items[i]?.getD null
    | none => return null
  | v => .error (.kind (.notIndexable v.kind))

/-- `slot` with `value` at the element that `indices` lead to; `none` if they lead nowhere. Without
indices the slot itself is replaced. -/
def setElement (slot : Value) (indices : List Value) (value : Value) :
    Except EvalFault (Option Value) :=
  match indices with
  | [] => .ok (some value)
  | index :: rest =>
    match slot with
    | null => .ok none
    | .array items => do
      match ← position? index items.length with
      | none => return none
      | some i =>
        let inner ← (items[i]?.getD null).setElement rest value
        return inner.map fun v => .array (items.set i v)
    | v => .error (.kind (.notIndexable v.kind))

end Value

end ComputedField
