import ComputedField.Proofs.Evaluation.Soundness
import ComputedField.Proofs.Value.Matching

/-!
# Runs that end alike

Two runs end alike if their values stand for one another or both fail, and if they leave variables
that stand for one another and the same state of the host. Their events may differ, and so may the
failures: these tell of positions in the text. In the variables that are `kept` decimals are of the
same form, too.
-/

set_option autoImplicit false

namespace ComputedField

/-! ## Variables -/

/-- The variables are declared alike, and their values stand for one another. -/
def Variables.Matches (kept : String → Bool) (vs vs' : Variables) : Prop :=
  List.Forall₂ (fun p p' => p'.1 = p.1 ∧ p'.2.type = p.2.type ∧
    p.2.value.Matches (kept p.1) p'.2.value) vs.entries vs'.entries

namespace Variables.Matches

variable {kept : String → Bool} {vs vs' : Variables} {name : String}

theorem refl (kept : String → Bool) (vs : Variables) : Matches kept vs vs :=
  List.forall₂_same.mpr fun _ _ => ⟨rfl, rfl, .refl _ _⟩

/-- Where all variables are kept nothing may differ. -/
theorem eq (h : Matches kept vs vs') (hkept : ∀ name, kept name = true) : vs' = vs := by
  have hentries : List.Forall₂ Eq vs.entries vs'.entries := by
    refine h.imp ?_
    rintro ⟨name, t, v⟩ ⟨name', t', v'⟩ ⟨hname, ht, hv⟩
    simp only at hname ht hv
    rw [hname, ht, hv.form (hkept name)]
  rw [List.forall₂_eq_eq_eq] at hentries
  cases vs
  cases vs'
  exact congrArg Variables.mk hentries.symm

theorem find? (h : Matches kept vs vs') (name : String) :
    Option.Rel (fun v v' => v'.type = v.type ∧ v.value.Matches (kept name) v'.value)
      (vs.find? name) (vs'.find? name) := by
  unfold Variables.find? Matches at *
  generalize vs.entries = entries at h
  generalize vs'.entries = entries' at h
  induction h with
  | nil => exact .none
  | @cons p p' _ _ hp _ ih =>
    obtain ⟨n, v⟩ := p
    obtain ⟨n', v'⟩ := p'
    obtain ⟨rfl, ht, hv⟩ := hp
    rw [List.lookup_cons, List.lookup_cons]
    by_cases hn : name = n'
    · subst hn
      rw [beq_self_eq_true]
      exact .some ⟨ht, hv⟩
    · rw [beq_false_of_ne hn]
      exact ih

theorem insert {v v' : Variable} (h : Matches kept vs vs') (ht : v'.type = v.type)
    (hv : v.value.Matches (kept name) v'.value) :
    Matches kept (vs.insert name v) (vs'.insert name v') := by
  unfold Variables.insert Matches at *
  generalize vs.entries = entries at h
  generalize vs'.entries = entries' at h
  induction h with
  | nil => exact .cons ⟨rfl, ht, hv⟩ .nil
  | @cons p p' _ _ hp hrest ih =>
    obtain ⟨n, w⟩ := p
    obtain ⟨n', w'⟩ := p'
    obtain ⟨rfl, hp⟩ := hp
    simp only [insertEntry]
    by_cases hn : n' = name
    · rw [if_pos hn, if_pos hn]
      exact .cons ⟨rfl, ht, hv⟩ hrest
    · rw [if_neg hn, if_neg hn]
      exact .cons ⟨rfl, hp⟩ ih

theorem assign? {value value' : Value} (h : Matches kept vs vs')
    (hv : value.Matches (kept name) value') :
    Option.Rel (Matches kept) (vs.assign? name value) (vs'.assign? name value') := by
  have hfind := h.find? name
  unfold Variables.assign?
  generalize vs.find? name = slot at hfind
  generalize vs'.find? name = slot' at hfind
  cases hfind with
  | none => exact .none
  | @some w w' hw =>
    refine .some (h.insert hw.1 ?_)
    rw [Variable.holding, Variable.holding, hw.1]
    exact hv.castTo _

end Variables.Matches

/-- The same but for the events and the form of decimals in variables that are not kept. -/
structure World.Alike {σ : Type} (kept : String → Bool) (w w' : World σ) : Prop where
  vars : w.vars.Matches kept w'.vars
  host : w'.host = w.host

namespace Run

variable {σ α β γ δ : Type} {kept : String → Bool}

/-- Values of which `R` holds or two failures, in worlds that are alike. -/
inductive SameEnd (kept : String → Bool) (R : α → β → Prop) :
    Except EvalError α × World σ → Except EvalError β × World σ → Prop where
  | ok {a : α} {b : β} {w w' : World σ} : R a b → w.Alike kept w' →
      SameEnd kept R (.ok a, w) (.ok b, w')
  | error {e e' : EvalError} {w w' : World σ} : w.Alike kept w' →
      SameEnd kept R (.error e, w) (.error e', w')

variable {R : α → β → Prop} {S : γ → δ → Prop} {m : Run σ α} {m' : Run σ β} {f : α → Run σ γ}
  {f' : β → Run σ δ} {w w' : World σ}

theorem SameEnd.bind (h : SameEnd kept R (m.result w) (m'.result w'))
    (hf : ∀ a b v v', R a b → m.result w = (.ok a, v) → m'.result w' = (.ok b, v') →
      v.Alike kept v' → SameEnd kept S ((f a).result v) ((f' b).result v')) :
    SameEnd kept S ((m >>= f).result w) ((m' >>= f').result w') := by
  rw [result_bind, result_bind]
  generalize m.result w = r at h hf
  generalize m'.result w' = r' at h hf
  cases h with
  | ok hR hw => exact hf _ _ _ _ hR rfl rfl hw
  | error hw => exact .error hw

/-! ## Steps -/

section Steps

variable (h : w.Alike kept w') {pos pos' : Position} {name : String}

include h

theorem sameEnd_located {r : Except EvalFault α} {r' : Except EvalFault β}
    (hr : SameOutcome R r r') :
    SameEnd kept R ((located pos r).result w) ((located pos' r').result w') := by
  cases hr with
  | ok hR => exact .ok hR h
  | error => exact .error h

theorem sameEnd_report (e e' : Event) :
    SameEnd kept Eq ((report e).result w) ((report e').result w') :=
  .ok rfl ⟨h.vars, h.host⟩

theorem sameEnd_readVariable : SameEnd kept (Value.Matches (kept name))
    ((readVariable pos name).result w) ((readVariable pos' name).result w') := by
  have hfind := h.vars.find? name
  rw [result_readVariable, result_readVariable]
  generalize w.vars.find? name = slot at hfind
  generalize w'.vars.find? name = slot' at hfind
  cases hfind with
  | none => exact .error h
  | some hv => exact .ok hv.2 h

theorem sameEnd_writeVariable {value value' : Value} (hv : value.Matches (kept name) value') :
    SameEnd kept Eq ((writeVariable pos name value).result w)
      ((writeVariable pos' name value').result w') := by
  have hassign := h.vars.assign? hv
  rw [result_writeVariable, result_writeVariable]
  generalize w.vars.assign? name value = vs at hassign
  generalize w'.vars.assign? name value' = vs' at hassign
  cases hassign with
  | none => exact .error h
  | some hvs => exact .ok rfl ⟨hvs, h.host⟩

theorem sameEnd_writePlace {rootPos rootPos' : Position} {indices indices' : List Value}
    {value value' : Value} (hindices : List.Forall₂ (Value.Matches false) indices indices')
    (hv : value.Matches (kept name) value') :
    SameEnd kept Eq ((writePlace pos rootPos name indices value).result w)
      ((writePlace pos' rootPos' name indices' value').result w') := by
  unfold writePlace
  cases hindices with
  | nil => exact sameEnd_writeVariable h hv
  | cons hi hrest =>
    refine (sameEnd_readVariable h).bind fun slot slot' v v' hslot _ _ halike => ?_
    refine (sameEnd_located halike (hslot.setElement (.cons hi hrest) hv)).bind ?_
    intro after after' v v' hafter _ _ halike
    cases hafter with
    | none => exact sameEnd_report halike ..
    | some hw => exact sameEnd_writeVariable halike hw

theorem sameEnd_call (functions : Functions σ) (types : List (Option Ty)) (arguments : List Value) :
    SameEnd kept Eq ((call functions pos name types arguments).result w)
      ((call functions pos' name types arguments).result w') := by
  unfold call
  refine (sameEnd_report h ..).bind fun _ _ v v' _ _ _ halike => ?_
  cases functions.resolve? name types with
  | none => exact .error halike
  | some f =>
    change SameEnd kept Eq (.ok (f.invoke arguments v.host).1, { v with host := _ })
      (.ok (f.invoke arguments v'.host).1, { v' with host := _ })
    rw [halike.host]
    exact .ok rfl ⟨halike.vars, rfl⟩

end Steps

/-! ## In conforming worlds -/

/-- From alike worlds whose variables conform, both runs end alike, with values of which `R`
holds. -/
def AlikeUpTo (kept : String → Bool) (R : α → β → Prop) (D : Declarations) (m : Run σ α)
    (m' : Run σ β) : Prop :=
  ∀ w w', w.Alike kept w' → w.vars.Conform D → w'.vars.Conform D →
    SameEnd kept R (m.result w) (m'.result w')

namespace AlikeUpTo

variable {D : Declarations} {quiet quiet' : Bool} {Q : α → Prop} {Q' : β → Prop}

theorem pure {a : α} {b : β} (h : R a b) :
    AlikeUpTo kept R D (Pure.pure a : Run σ α) (Pure.pure b) := fun _ _ hw _ _ => .ok h hw

theorem located {pos pos' : Position} {r : Except EvalFault α} {r' : Except EvalFault β}
    (hr : SameOutcome R r r') :
    AlikeUpTo kept R D (Run.located pos r : Run σ α) (Run.located pos' r') :=
  fun _ _ hw _ _ => sameEnd_located hw hr

/-- What each of the first runs promises of its value may be used of what follows. -/
theorem bind (h : AlikeUpTo kept R D m m') (hm : Keeps D quiet m Q) (hm' : Keeps D quiet' m' Q')
    (hf : ∀ a b, R a b → Q a → Q' b → AlikeUpTo kept S D (f a) (f' b)) :
    AlikeUpTo kept S D (m >>= f) (m' >>= f') := by
  intro w w' hw hconform hconform'
  refine (h w w' hw hconform hconform').bind fun a b v v' hR hv hv' halike => ?_
  obtain ⟨ha, hconform_v⟩ := hm.ok hconform hv
  obtain ⟨hb, hconform_v'⟩ := hm'.ok hconform' hv'
  exact hf a b hR ha hb v v' halike hconform_v hconform_v'

/-- What an operator gives is of the types that both nodes give it, and no cast changes it. -/
theorem cast {exact : Bool} {pos pos' : Position} {r r' : Except EvalFault Value}
    {mayFail mayFail' : Bool} {t t' note note' : Option Ty}
    (hr : SameOutcome (Value.Matches exact) r r') (h : Yields mayFail t r)
    (hnote : Ty.NotedAs t note) (h' : Yields mayFail' t' r') (hnote' : Ty.NotedAs t' note') :
    AlikeUpTo kept (Value.Matches exact) D
      (do let v ← (Run.located pos r : Run σ Value); return v.castTo note)
      (do let v ← Run.located pos' r'; return v.castTo note') := by
  have hvalue {mayFail : Bool} {t note : Option Ty} {v : Value}
      (h : Yields mayFail t (.ok v)) (hnote : Ty.NotedAs t note) : v.castTo note = v := by
    rcases h with ⟨w, hw, hwt⟩ | ⟨-, _, hfault, -⟩
    · cases hw
      exact hwt.castTo_of_notedAs hnote
    · cases hfault
  intro w w' hw _ _
  cases hr with
  | error => exact .error hw
  | ok hv =>
    refine .ok ?_ hw
    rw [hvalue h hnote, hvalue h' hnote']
    exact hv

end AlikeUpTo

end Run

end ComputedField
