import ComputedField.Value.Basic

/-!
# Variables

What names stand for: a declared type and a value. A value is cast to the declared type whenever it
is stored. The view of a store is `find?`, and every operation is described through it.
-/

set_option autoImplicit false

namespace ComputedField

structure Variable where
  type : Ty
  value : Value
deriving Repr, Inhabited

/-- A variable of type `type` that holds `value`. -/
def Variable.holding (type : Ty) (value : Value) : Variable := ⟨type, value.castTo (some type)⟩

/-- Variables by name, in the order in which the names first came up. -/
structure Variables where
  entries : List (String × Variable)
deriving Repr, Inhabited

namespace Variables

def empty : Variables := ⟨[]⟩

def find? (vs : Variables) (name : String) : Option Variable := vs.entries.lookup name

/-- `entries` with `name` bound to `v`, in the place of an earlier binding. -/
def insertEntry (name : String) (v : Variable) :
    List (String × Variable) → List (String × Variable)
  | [] => [(name, v)]
  | (n, w) :: rest => if n = name then (name, v) :: rest else (n, w) :: insertEntry name v rest

def insert (vs : Variables) (name : String) (v : Variable) : Variables :=
  ⟨insertEntry name v vs.entries⟩

/-- Declares a variable, which holds null. -/
def declare (vs : Variables) (name : String) (type : Ty) : Variables :=
  vs.insert name ⟨type, .null⟩

/-- Declares a variable and stores a value in it. -/
def define (vs : Variables) (name : String) (type : Ty) (value : Value) : Variables :=
  vs.insert name (.holding type value)

/-- Stores a value in a declared variable. -/
def assign? (vs : Variables) (name : String) (value : Value) : Option Variables :=
  (vs.find? name).map fun v => vs.define name v.type value

/-! ## What the operations do to the view -/

@[simp] theorem find?_empty (name : String) : empty.find? name = none := rfl

theorem lookup_cons_of_ne {name n : String} (v : Variable) (entries : List (String × Variable))
    (h : name ≠ n) : ((n, v) :: entries).lookup name = entries.lookup name := by
  have hb : (name == n) = false := by simpa using h
  rw [List.lookup_cons, hb]

theorem lookup_insertEntry (name other : String) (v : Variable)
    (entries : List (String × Variable)) :
    (insertEntry name v entries).lookup other
      = if other = name then some v else entries.lookup other := by
  induction entries with
  | nil =>
    by_cases h : other = name
    · simp [insertEntry, h]
    · simp [insertEntry, h, lookup_cons_of_ne]
  | cons e rest ih =>
    obtain ⟨n, w⟩ := e
    by_cases hn : n = name <;> by_cases h : other = n
    · simp [insertEntry, hn, h]
    · simp [insertEntry, ← hn, h, lookup_cons_of_ne]
    · simp [insertEntry, hn, h]
    · simp [insertEntry, hn, h, lookup_cons_of_ne, ih]

@[simp] theorem find?_insert (vs : Variables) (name other : String) (v : Variable) :
    (vs.insert name v).find? other = if other = name then some v else vs.find? other :=
  lookup_insertEntry name other v vs.entries

@[simp] theorem find?_define (vs : Variables) (name other : String) (type : Ty) (value : Value) :
    (vs.define name type value).find? other
      = if other = name then some (.holding type value) else vs.find? other :=
  find?_insert ..

@[simp] theorem find?_declare (vs : Variables) (name other : String) (type : Ty) :
    (vs.declare name type).find? other
      = if other = name then some ⟨type, .null⟩ else vs.find? other :=
  find?_insert ..

theorem find?_of_assign? {vs ws : Variables} {name : String} {value : Value}
    (h : vs.assign? name value = some ws) (other : String) :
    ws.find? other
      = if other = name then (vs.find? name).map fun v => .holding v.type value
        else vs.find? other := by
  unfold assign? at h
  cases hv : vs.find? name with
  | none => simp [hv] at h
  | some v =>
    simp only [hv, Option.map_some, Option.some.injEq] at h
    subst h
    simp

end Variables

end ComputedField
