import ComputedField.Proofs.Environment.Conforms
import ComputedField.Proofs.Evaluation.Run

/-!
# Overloads

Several functions may have one name, and a host may register more of them at any time, after
formulas have been compiled. A call goes over to a new function only where nothing was selected for
it that fits as well (`Functions.TakesOver`), and otherwise stays with what it had. So the first
function that fits exactly is selected whatever is registered after it (`firstExact_registerAll`).
-/

set_option autoImplicit false

namespace ComputedField

variable {σ : Type}

namespace Functions

variable {fs : Functions σ} {f g : Function σ} {name : String} {types : List (Option Ty)}

/-! ## What a call selects -/

/-- `g` is the first function of the name whose parameters are exactly the types of the
arguments. -/
def FirstExact (fs : Functions σ) (name : String) (types : List (Option Ty)) (g : Function σ) :
    Prop :=
  g.name = name ∧ g.isExact types = true ∧
    ∃ before after, fs.registered = before ++ g :: after ∧
      ∀ h ∈ before, h.name = name → h.isExact types = false

theorem firstExact_iff :
    fs.FirstExact name types g ↔ (fs.overloads name).find? (·.isExact types) = some g := by
  rw [overloads, List.find?_filter, List.find?_eq_some_iff_append]
  simp [FirstExact, and_assoc, imp_iff_not_or]

/-- A function that fits exactly comes before all that only accept the arguments. -/
theorem FirstExact.resolve? (h : fs.FirstExact name types g) :
    fs.resolve? name types = some g := by
  simp only [Functions.resolve?, firstExact_iff.mp h, Option.some_or]

theorem exists_firstExact (hmem : g ∈ fs.registered) (hname : g.name = name)
    (hexact : g.isExact types = true) : ∃ first, fs.FirstExact name types first := by
  have hg : g ∈ fs.overloads name := List.mem_filter.mpr ⟨hmem, by simpa using hname⟩
  have hsome : ((fs.overloads name).find? (·.isExact types)).isSome = true :=
    List.find?_isSome.mpr ⟨g, hg, hexact⟩
  obtain ⟨first, hfirst⟩ := Option.isSome_iff_exists.mp hsome
  exact ⟨first, firstExact_iff.mpr hfirst⟩

theorem resolve?_of_find?_isExact_eq_none
    (h : (fs.overloads name).find? (·.isExact types) = none) :
    fs.resolve? name types = (fs.overloads name).find? (·.accepts types) := by
  rw [Functions.resolve?, h, Option.none_or]

/-- What is selected without fitting exactly shows that nothing fits exactly. -/
theorem find?_isExact_eq_none (h : fs.resolve? name types = some g)
    (hg : g.isExact types = false) : (fs.overloads name).find? (·.isExact types) = none := by
  cases hfirst : (fs.overloads name).find? (·.isExact types) with
  | none => rfl
  | some first =>
    rw [(firstExact_iff.mpr hfirst).resolve?] at h
    cases h
    exact absurd (List.find?_some hfirst) (by simp [hg])

/-! ## One more function -/

/-- A function that fits exactly stays the first one that does. -/
theorem FirstExact.register (h : fs.FirstExact name types g) (f : Function σ) :
    (fs.register f).FirstExact name types g := by
  obtain ⟨hname, hexact, before, after, hregistered, hbefore⟩ := h
  refine ⟨hname, hexact, before, after ++ [f], ?_, hbefore⟩
  rw [Functions.register, hregistered, List.append_assoc, List.cons_append]

/-- Registered after the others, `f` takes the call over: nothing was selected for it and `f`
accepts its arguments, or what was selected does not fit exactly and `f` does. -/
def TakesOver (fs : Functions σ) (f : Function σ) (name : String) (types : List (Option Ty)) :
    Prop :=
  f.name = name ∧
    ((fs.resolve? name types = none ∧ f.accepts types = true) ∨
      ∃ g, fs.resolve? name types = some g ∧ g.isExact types = false ∧ f.isExact types = true)

theorem TakesOver.resolve?_register (h : fs.TakesOver f name types) :
    (fs.register f).resolve? name types = some f := by
  obtain ⟨hname, ⟨hnone, haccepts⟩ | ⟨g, hg, hloose, hexact⟩⟩ := h
  · obtain ⟨hexact, hloose⟩ := Option.or_eq_none_iff.mp hnone
    rw [Functions.resolve?, overloads_register, if_pos hname]
    simp only [List.find?_append, hexact, hloose, Option.none_or, List.find?_singleton, haccepts,
      if_true]
    split <;> rfl
  · refine FirstExact.resolve? (firstExact_iff.mpr ?_)
    rw [overloads_register, if_pos hname, List.find?_append, find?_isExact_eq_none hg hloose,
      Option.none_or, List.find?_singleton, if_pos hexact]

/-- Where nothing fits a call exactly, neither does a function of its name that does not take it
over. -/
theorem isExact_eq_false_of_not_takesOver (h : ¬ fs.TakesOver f name types) (hname : f.name = name)
    (hnone : (fs.overloads name).find? (·.isExact types) = none) : f.isExact types = false := by
  by_contra hexact
  have hexact := (Bool.not_eq_false _).mp hexact
  cases hselected : fs.resolve? name types with
  | none => exact h ⟨hname, .inl ⟨hselected, Function.accepts_of_isExact hexact⟩⟩
  | some g =>
    have hmem : g ∈ fs.overloads name := by
      rw [resolve?_of_find?_isExact_eq_none hnone] at hselected
      exact List.mem_of_find?_eq_some hselected
    have hg : g.isExact types = false := by simpa using List.find?_eq_none.mp hnone g hmem
    exact h ⟨hname, .inr ⟨g, hselected, hg, hexact⟩⟩

theorem resolve?_register_of_not_takesOver (h : ¬ fs.TakesOver f name types) :
    (fs.register f).resolve? name types = fs.resolve? name types := by
  by_cases hname : f.name = name
  · cases hfirst : (fs.overloads name).find? (·.isExact types) with
    | some first =>
      have hfirst := firstExact_iff.mpr hfirst
      rw [hfirst.resolve?, (hfirst.register f).resolve?]
    | none =>
      have hselected := resolve?_of_find?_isExact_eq_none hfirst
      have hexact := isExact_eq_false_of_not_takesOver h hname hfirst
      rw [resolve?_of_find?_isExact_eq_none, hselected, overloads_register, if_pos hname,
        List.find?_append]
      · cases hloose : (fs.overloads name).find? (·.accepts types) with
        | some g => rfl
        | none =>
          have haccepts : f.accepts types ≠ true := fun haccepts =>
            h ⟨hname, .inl ⟨hselected.trans hloose, haccepts⟩⟩
          simp [haccepts]
      · simp [overloads_register, hname, hfirst, hexact]
  · simp only [Functions.resolve?, overloads_register, if_neg hname, List.append_nil]

/-- A function that takes a call over was not selected for it. -/
theorem TakesOver.resolve?_ne (h : fs.TakesOver f name types) :
    fs.resolve? name types ≠ some f := by
  obtain ⟨-, ⟨hnone, -⟩ | ⟨g, hg, hloose, hexact⟩⟩ := h
  · simp [hnone]
  · rw [hg]
    rintro ⟨rfl⟩
    simp [hloose] at hexact

end Functions

namespace Environment

variable {env : Environment σ} {name : String} {types : List (Option Ty)}

/-! ## Whole environments -/

/-- Functions registered one after the other. -/
def registerAll (env : Environment σ) (later : List (Function σ)) : Environment σ :=
  later.foldl register env

theorem firstExact_registerAll {g : Function σ} (h : env.functions.FirstExact name types g)
    (later : List (Function σ)) : (env.registerAll later).functions.FirstExact name types g := by
  induction later generalizing env with
  | nil => exact h
  | cons f later ih => exact ih (h.register f)

/-- What an environment says about a call is about `selected`: whether there is a function for it,
the type of its result, and what the host or a formula gets that calls it. -/
structure RefersTo (env : Environment σ) (name : String) (types : List (Option Ty))
    (selected : Option (Function σ)) : Prop where
  isSelected : (env.select name types).toBool = selected.isSome
  returnType : env.declarations.returnType? name types = selected.map Function.returns
  invoke : ∀ arguments host, env.invoke name types arguments host =
    selected.elim (.error ⟨name⟩) fun f => .ok (f.body (f.castArguments arguments) host)
  call : ∀ f ∈ selected, ∀ pos arguments (w : World σ),
    ((Run.call env.functions pos name types arguments).result w).1 =
      .ok (f.body (f.castArguments arguments) w.host).1

theorem refersTo_resolve? : env.RefersTo name types (env.functions.resolve? name types) where
  isSelected := by
    rw [select]
    cases env.functions.resolve? name types <;> rfl
  returnType := rfl
  invoke arguments host := by
    rw [invoke, select]
    cases env.functions.resolve? name types <;> rfl
  call f hf pos arguments w := by
    rw [Run.result_call hf]
    rfl

/-- **What a call selects is stable under registration.** One more function changes it exactly where
the function takes the call over, and then to that function. If a function fits the call exactly,
the first one that does is selected, whatever is registered later. And everything that an
environment says about the call is about the one function that is selected. -/
theorem resolve?_stable (env : Environment σ) (name : String) (types : List (Option Ty)) :
    (∀ f,
      ((env.register f).functions.resolve? name types ≠ env.functions.resolve? name types ↔
        env.functions.TakesOver f name types) ∧
      (env.functions.TakesOver f name types →
        (env.register f).functions.resolve? name types = some f)) ∧
    (∀ g ∈ env.functions.registered, g.name = name → g.isExact types = true →
      ∃ first, env.functions.FirstExact name types first ∧
        ∀ later, (env.registerAll later).functions.resolve? name types = some first) ∧
    env.RefersTo name types (env.functions.resolve? name types) := by
  refine ⟨fun f => ⟨⟨?_, ?_⟩, ?_⟩, ?_, refersTo_resolve?⟩
  · intro hchanged
    by_contra htakes
    exact hchanged (Functions.resolve?_register_of_not_takesOver htakes)
  · intro htakes
    have hnew : (env.register f).functions.resolve? name types = some f := htakes.resolve?_register
    rw [hnew]
    exact htakes.resolve?_ne.symm
  · exact Functions.TakesOver.resolve?_register
  · intro g hmem hname hexact
    obtain ⟨first, hfirst⟩ := Functions.exists_firstExact hmem hname hexact
    exact ⟨first, hfirst, fun later => (firstExact_registerAll hfirst later).resolve?⟩

end Environment

end ComputedField
