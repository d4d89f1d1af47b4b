import ComputedField.Environment.Library
import ComputedField.Proofs.Expr.Shape
import ComputedField.Proofs.Value.HasType

/-!
# Conforming environments

An environment conforms when every variable holds a value of its declared type and every function
keeps to its declared return type. `Variables.Conform D` and `Functions.Conform D` say the same
relative to declarations, which stay as they are while the values of the variables change. The
standard functions conform (`Library.conforms`), so that only the functions of the host have to be
asked to.
-/

set_option autoImplicit false

namespace ComputedField

/-! ## Variables -/

/-- The variables are those of `D`, and each holds a value of its type. -/
structure Variables.Conform (D : Declarations) (vs : Variables) : Prop where
  declared : ∀ name, (vs.find? name).map Variable.type = D.variableType? name
  typed : ∀ name v, vs.find? name = some v → v.value.HasType (some v.type)

namespace Variables.Conform

variable {D : Declarations} {vs : Variables} {name : String}

theorem find? {t : Ty} (h : vs.Conform D) (ht : D.variableType? name = some t) :
    ∃ v, vs.find? name = some v ∧ v.type = t ∧ v.value.HasType (some t) := by
  rw [← h.declared name] at ht
  obtain ⟨v, hv, rfl⟩ := Option.map_eq_some_iff.mp ht
  exact ⟨v, hv, rfl, h.typed name v hv⟩

/-- Storing a value that the cast brings to the declared type keeps the types. -/
theorem assign? {t u : Ty} {value : Value} (h : vs.Conform D)
    (ht : D.variableType? name = some t) (hvalue : value.HasType (some u))
    (hu : Ty.Widens (some u) (some t)) :
    ∃ ws, vs.assign? name value = some ws ∧ ws.Conform D := by
  obtain ⟨v, hv, rfl, -⟩ := h.find? ht
  refine ⟨vs.define name v.type value, by simp [Variables.assign?, hv], ?_, ?_⟩
  · intro other
    rw [find?_define]
    by_cases ho : other = name
    · rw [if_pos ho, ho, ht]; rfl
    · rw [if_neg ho]; exact h.declared other
  · intro other w hw
    rw [find?_define] at hw
    by_cases ho : other = name
    · rw [if_pos ho] at hw
      cases hw
      exact hvalue.castTo hu
    · rw [if_neg ho] at hw
      exact h.typed other w hw

end Variables.Conform

/-! ## Functions -/

variable {σ : Type}

/-- On arguments of the types of its parameters, whatever the host does, the function returns what
the cast brings to its return type. -/
def Function.Conforms (f : Function σ) : Prop :=
  ∀ arguments host, List.Forall₂ Value.HasType arguments (f.parameters.map some) →
    ((f.body arguments host).1.castTo (some f.returns)).HasType (some f.returns)

/-- Calls select as `D` says, and every function conforms. -/
structure Functions.Conform (D : Declarations) (fs : Functions σ) : Prop where
  declared : ∀ name types, (fs.resolve? name types).map Function.returns = D.returnType? name types
  typed : ∀ f ∈ fs.registered, f.Conforms

namespace Function

variable {f : Function σ} {types : List (Option Ty)}

theorem accepts_iff : f.accepts types = true ↔
    List.Forall₂ (fun p t => Ty.assignable (some p) t = true) f.parameters types := by
  rw [List.forall₂_iff_zip]
  simp only [accepts, Bool.and_eq_true, beq_iff_eq, List.all_eq_true]
  constructor
  · rintro ⟨hlength, h⟩
    exact ⟨hlength, fun hp => h _ hp⟩
  · rintro ⟨hlength, h⟩
    exact ⟨hlength, fun p hp => h hp⟩

theorem accepts_of_isExact (h : f.isExact types = true) : f.accepts types = true := by
  have htypes : types = f.parameters.map some := by simpa [isExact] using h
  rw [accepts_iff, htypes, List.forall₂_map_right_iff, List.forall₂_same]
  intro p _
  simp [Ty.assignable]

/-- Arguments that a function accepts are of the types of its parameters once they are cast. -/
theorem castArguments_hasType {arguments : List Value} (h : f.accepts types = true)
    (ha : List.Forall₂ Value.HasType arguments types) :
    List.Forall₂ Value.HasType (f.castArguments arguments) (f.parameters.map some) := by
  have hp := accepts_iff.mp h
  -- induction on the parameters, each with the type and the value that stand against it
  clear h
  simp only [castArguments]
  generalize f.parameters = parameters at hp
  induction hp generalizing arguments with
  | nil => cases ha; exact .nil
  | cons hp _ ih =>
    cases ha with
    | cons hv hvs => exact .cons (hv.castTo (Ty.widens_of_assignable hp)) (ih hvs)

end Function

/-- A call selects among the functions that accept its arguments. -/
theorem Functions.mem_of_resolve? {fs : Functions σ} {f : Function σ} {name : String}
    {types : List (Option Ty)} (h : fs.resolve? name types = some f) :
    f ∈ fs.registered ∧ f.accepts types = true := by
  have hmem : ∀ {p : Function σ → Bool}, (fs.overloads name).find? p = some f →
      f ∈ fs.registered ∧ p f = true := by
    intro p hp
    refine ⟨?_, List.find?_some hp⟩
    exact (List.mem_filter.mp (List.mem_of_find?_eq_some hp)).1
  rcases Option.or_eq_some_iff.mp h with h | ⟨-, h⟩
  · exact ⟨(hmem h).1, Function.accepts_of_isExact (hmem h).2⟩
  · exact hmem h

/-- A call that the checker has accepted reaches a function, and what it returns is brought to the
declared type by the cast. -/
theorem Functions.Conform.invoke {D : Declarations} {fs : Functions σ} (h : fs.Conform D)
    {name : String} {types : List (Option Ty)} {t : Ty} (ht : D.returnType? name types = some t)
    {arguments : List Value} (ha : List.Forall₂ Value.HasType arguments types) :
    ∃ f, fs.resolve? name types = some f ∧
      ∀ host, ((f.invoke arguments host).1.castTo (some t)).HasType (some t) := by
  rw [← h.declared] at ht
  obtain ⟨f, hf, rfl⟩ := Option.map_eq_some_iff.mp ht
  obtain ⟨hmem, hacc⟩ := mem_of_resolve? hf
  exact ⟨f, hf, fun host => h.typed f hmem _ host (Function.castArguments_hasType hacc ha)⟩

/-! ## Environments -/

/-- Every variable holds a value of its declared type, and every function keeps to its return
type. -/
structure Environment.Conforms (env : Environment σ) : Prop where
  values : ∀ name v, env.vars.find? name = some v → v.value.HasType (some v.type)
  results : ∀ f ∈ env.functions.registered, f.Conforms

namespace Environment

variable {env : Environment σ}

theorem Conforms.vars (h : env.Conforms) : env.vars.Conform env.declarations :=
  ⟨fun _ => rfl, h.values⟩

theorem Conforms.conform_functions (h : env.Conforms) : env.functions.Conform env.declarations :=
  ⟨fun _ _ => rfl, h.results⟩

/-- Variables that conform to the declarations of an environment may stand in it. -/
theorem Conforms.withVars (h : env.Conforms) {vs : Variables} (hvs : vs.Conform env.declarations) :
    { env with vars := vs }.Conforms ∧ { env with vars := vs }.declarations = env.declarations := by
  refine ⟨⟨hvs.typed, h.results⟩, ?_⟩
  simp only [declarations, Declarations.mk.injEq, and_true]
  funext name
  exact hvs.declared name

end Environment

/-! ## The standard functions -/

namespace Library

/-- A result of one type, whatever the arguments are. -/
theorem conforms_plain {name : String} {parameters : List Ty} {t : Ty}
    {result : List Value → Value} (h : ∀ arguments, (result arguments).HasType (some t)) :
    (Function.plain (σ := σ) name parameters t result).Conforms := by
  intro arguments host _
  show ((result arguments).castTo (some t)).HasType (some t)
  rw [(h arguments).castTo_eq]
  exact h arguments

theorem numeric_conforms : ∀ f ∈ numeric (σ := σ), f.Conforms := by
  intro f hf
  simp only [numeric, List.mem_cons, List.not_mem_nil, or_false] at hf
  rcases hf with rfl | rfl | rfl | rfl | rfl | rfl | rfl | rfl | rfl <;>
    refine conforms_plain fun arguments => ?_
  · unfold absInteger
    split
    · exact .integer _
    · exact .null _
  · unfold absDecimal
    split
    · exact .decimal _
    · exact .null _
  · unfold round
    split
    · split
      · exact .decimal _
      · exact .null _
    · exact .null _
  · unfold floor
    split
    · exact .integer _
    · exact .null _
  · unfold ceil
    split
    · exact .integer _
    · exact .null _
  · unfold minInteger
    split
    · exact .integer _
    · exact .null _
  · unfold minDecimal
    split
    · exact .decimal _
    · exact .null _
  · unfold maxInteger
    split
    · exact .integer _
    · exact .null _
  · unfold maxDecimal
    split
    · exact .decimal _
    · exact .null _

theorem strings_conforms : ∀ f ∈ strings (σ := σ), f.Conforms := by
  intro f hf
  simp only [strings, List.mem_cons, List.not_mem_nil, or_false] at hf
  rcases hf with rfl | rfl | rfl | rfl <;> refine conforms_plain fun arguments => ?_
  · unfold length
    split
    · exact .integer _
    · exact .null _
  · unfold upper
    split
    · exact .string _
    · exact .null _
  · unfold lower
    split
    · exact .string _
    · exact .null _
  · unfold substring
    split
    · split
      · exact .string _
      · exact .null _
    · exact .null _

theorem dates_conforms : ∀ f ∈ dates (σ := σ), f.Conforms := by
  intro f hf
  simp only [dates, List.mem_cons, List.not_mem_nil, or_false] at hf
  rcases hf with rfl | rfl | rfl | rfl | rfl <;> refine conforms_plain fun arguments => ?_
  · unfold date
    split
    · split
      · exact .date _
      · exact .null _
    · exact .null _
  · unfold year
    split
    · exact .integer _
    · exact .null _
  · unfold month
    split
    · exact .integer _
    · exact .null _
  · unfold day
    split
    · exact .integer _
    · exact .null _
  · unfold daysBetween
    split
    · exact .integer _
    · exact .null _

theorem coalesce_hasType {arguments : List Value} {t : Option Ty}
    (h : ∀ v ∈ arguments, v.HasType t) : (coalesce arguments).HasType t := by
  unfold coalesce
  cases hv : arguments.find? fun v => !v.isNull with
  | none => exact .null t
  | some v => exact h v (List.mem_of_find?_eq_some hv)

/-- Of the standard functions, `coalesce` alone gives back what it was given. -/
theorem nulls_conforms : ∀ f ∈ nulls (σ := σ), f.Conforms := by
  intro f hf
  obtain ⟨t, -, rfl⟩ := List.mem_map.mp hf
  intro arguments host ha
  have hresult : (coalesce arguments).HasType (some t) := by
    refine coalesce_hasType fun v hv => ?_
    obtain ⟨u, hu, hvu⟩ := exists_left_of_forall₂ ha.flip v hv
    obtain ⟨p, hp, rfl⟩ := List.mem_map.mp hu
    have hpt : p = t := by simpa [Function.plain] using hp
    exact hpt ▸ hvu
  show ((coalesce arguments).castTo (some t)).HasType (some t)
  rw [hresult.castTo_eq]
  exact hresult

/-- The standard functions keep to their return types. -/
theorem conforms : ∀ f ∈ (functions (σ := σ)).registered, f.Conforms := by
  intro f hf
  simp only [functions, List.mem_append] at hf
  rcases hf with ((hf | hf) | hf) | hf
  · exact numeric_conforms f hf
  · exact strings_conforms f hf
  · exact dates_conforms f hf
  · exact nulls_conforms f hf

end Library

/-! ## Building environments -/

namespace Environment

variable {env : Environment σ}

theorem conforms_standard : (standard (σ := σ)).Conforms := by
  refine ⟨?_, Library.conforms⟩
  intro name v hv
  cases hv

/-- A variable may be given any value that the cast brings to its type. -/
theorem Conforms.define (h : env.Conforms) (name : String) {type : Ty} {value : Value}
    (hv : (value.castTo (some type)).HasType (some type)) : (env.define name type value).Conforms := by
  refine ⟨?_, h.results⟩
  intro other v hfind
  simp only [Environment.define, Variables.find?_define] at hfind
  by_cases ho : other = name
  · rw [if_pos ho] at hfind
    cases hfind
    exact hv
  · rw [if_neg ho] at hfind
    exact h.values other v hfind

/-- A declared variable holds null. -/
theorem Conforms.declare (h : env.Conforms) (name : String) (type : Ty) :
    (env.declare name type).Conforms := by
  refine ⟨?_, h.results⟩
  intro other v hfind
  simp only [Environment.declare, Variables.find?_declare] at hfind
  by_cases ho : other = name
  · rw [if_pos ho] at hfind
    cases hfind
    exact .null _
  · rw [if_neg ho] at hfind
    exact h.values other v hfind

theorem Conforms.register (h : env.Conforms) {f : Function σ} (hf : f.Conforms) :
    (env.register f).Conforms := by
  refine ⟨h.values, ?_⟩
  intro g hg
  rcases List.mem_append.mp hg with hg | hg
  · exact h.results g hg
  · rw [List.mem_singleton.mp hg]
    exact hf

end Environment

end ComputedField
