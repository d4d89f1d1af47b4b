import ComputedField.Proofs.Evaluation.Frame
import ComputedField.Proofs.Evaluation.Soundness
import ComputedField.Proofs.Typing.CheckShape
import ComputedField.Proofs.Value.Lens
import Mathlib

/-!
# Chains of assignments

A statement `p₁ = p₂ = … = pₙ = e` runs in two phases. First everything is evaluated that stands in
it, the indices of the places from left to right and then `e`, all before any write
(`TypedExpr.EvaluatedIn`). Then the places are written from right to left (`Stores`), each write
going into what the writes before it have left. `eval_chain` takes a run apart into the two, by
induction over the chain, and `evaluate_chain` states it of whole evaluations.
-/

set_option autoImplicit false

namespace ComputedField

/-! ## Chains and their places -/

namespace Expr

variable {α : Type}

/-- The places that a chain of assignments writes, the outermost assignment's first. -/
def chainPlaces : Expr α → List (Expr α)
  | assignment _ x v => x.target?.toList ++ v.chainPlaces
  | _ => []

/-- The value at the end of a chain; the expression itself if it is no assignment. -/
def chainValue : Expr α → Expr α
  | assignment _ _ v => v.chainValue
  | e => e

/-- The indices of a place, from the outermost array inward. -/
def placeIndices : Expr α → List (Expr α)
  | element _ a i => a.placeIndices ++ [i]
  | _ => []

theorem Plain.chain_eq {e : Expr α} (h : e.Plain) : e.chainPlaces = [] ∧ e.chainValue = e := by
  cases h <;> exact ⟨rfl, rfl⟩

theorem chainPlaces_assignment {tag : Tag α} {x v p : Expr α} (h : x.target? = some p) :
    (assignment tag x v).chainPlaces = p :: v.chainPlaces := by
  rw [chainPlaces, h]
  rfl

end Expr

/-! ## Evaluation before any write -/

namespace TypedExpr

open Run ComputedField.Expr

variable {σ : Type}

/-- The expressions are evaluated to these values one after the other, from the world `w` to the
world `w'`, and the variables are `vars` whenever one is. Calls may change the host on the way. -/
inductive EvaluatedIn (functions : Functions σ) (ctx : MathContext) (vars : Variables) :
    List TypedExpr → List Value → World σ → World σ → Prop where
  | nil {w : World σ} : w.vars = vars → EvaluatedIn functions ctx vars [] [] w w
  | cons {e : TypedExpr} {es : List TypedExpr} {v : Value} {vs : List Value} {w w₁ w₂ : World σ} :
      w.vars = vars → (eval functions ctx e).result w = (.ok v, w₁) →
      EvaluatedIn functions ctx vars es vs w₁ w₂ →
      EvaluatedIn functions ctx vars (e :: es) (v :: vs) w w₂

namespace EvaluatedIn

variable {functions : Functions σ} {ctx : MathContext} {vars : Variables}
  {es fs : List TypedExpr} {vs us : List Value} {w w₁ w₂ : World σ}

theorem vars_eq (h : EvaluatedIn functions ctx vars es vs w w₁) :
    w.vars = vars ∧ w₁.vars = vars := by
  induction h with
  | nil hw => exact ⟨hw, hw⟩
  | cons hw _ _ ih => exact ⟨hw, ih.2⟩

theorem length_eq (h : EvaluatedIn functions ctx vars es vs w w₁) : vs.length = es.length := by
  induction h with
  | nil => rfl
  | cons _ _ _ ih => rw [List.length_cons, List.length_cons, ih]

theorem singleton {e : TypedExpr} {v : Value} (hw : w.vars = vars)
    (he : (eval functions ctx e).result w = (.ok v, w₁)) (hw₁ : w₁.vars = vars) :
    EvaluatedIn functions ctx vars [e] [v] w w₁ :=
  .cons hw he (.nil hw₁)

theorem append (h : EvaluatedIn functions ctx vars es vs w w₁)
    (hf : EvaluatedIn functions ctx vars fs us w₁ w₂) :
    EvaluatedIn functions ctx vars (es ++ fs) (vs ++ us) w w₂ := by
  induction h with
  | nil => exact hf
  | cons hw he _ ih => exact .cons hw he (ih hf)

/-- The value of the last expression, and those before it. -/
theorem of_concat {e : TypedExpr} (h : EvaluatedIn functions ctx vars (es ++ [e]) vs w w₂) :
    ∃ us v w₁, vs = us ++ [v] ∧ EvaluatedIn functions ctx vars es us w w₁ ∧
      (eval functions ctx e).result w₁ = (.ok v, w₂) := by
  induction es generalizing vs w with
  | nil =>
    cases h with
    | cons hw he hnil =>
      cases hnil
      exact ⟨[], _, _, rfl, .nil hw, he⟩
  | cons first es ih =>
    cases h with
    | cons hw hfirst hrest =>
      obtain ⟨us, v, w₁, rfl, hus, he⟩ := ih hrest
      exact ⟨_ :: us, v, w₁, rfl, .cons hw hfirst hus, he⟩

end EvaluatedIn

/-! ## Places and their indices -/

variable {D : Declarations} {functions : Functions σ} {ctx : MathContext}

/-- Finding out where to write is evaluating the indices of the place from left to right, and
writes nothing. -/
theorem evaluatedIn_of_evalIndices {x p : TypedExpr} (hx : x.Plain) (hp : x.target? = some p)
    {w w' : World σ} {indices : List Value}
    (hresult : (evalIndices functions ctx x).result w = (.ok indices, w')) :
    EvaluatedIn functions ctx w.vars p.placeIndices indices w w' := by
  induction hx generalizing p w' indices with
  | var tag name =>
    cases hp
    rw [evalIndices_var] at hresult
    cases hresult
    exact .nil rfl
  | @element tag a i _ hi iha =>
    obtain ⟨-, rfl⟩ := target?_element.mp hp
    rw [evalIndices_element] at hresult
    obtain ⟨outer, w₁, houter, hresult⟩ := result_bind_eq_ok.mp hresult
    obtain ⟨index, w₂, hindex, hresult⟩ := result_bind_eq_ok.mp hresult
    cases hresult
    have hfirst := iha (target?_array hp) houter
    have hw₁ : w₁.vars = w.vars := hfirst.vars_eq.2
    have hw' : w'.vars = w₁.vars := (frames_eval functions ctx hi).vars_of_result hindex
    exact hfirst.append (.singleton hw₁ hindex (hw'.trans hw₁))
  | @unary tag op x _ ih =>
    -- parentheses have the place and the indices of what is in them
    by_cases hop : op = .group
    · subst hop
      exact ih hp hresult
    · rw [target?_unary hop] at hp
      cases hp
  | literal | binary | conditional | call => cases hp

/-! ## Writes -/

/-- The indices lead nowhere in the value that the variable of the place has. -/
def Skips (p : TypedExpr) (indices : List Value) (vars : Variables) : Prop :=
  ∃ root name x, p.root? = some (root, name) ∧ vars.find? name = some x ∧
    x.value.LeadsNowhere indices

/-- What the write of a value to a place makes of the variables. The value replaces what the indices
lead to in the variable of the place, or they lead nowhere and nothing changes. -/
inductive StoredAt (p : TypedExpr) (indices : List Value) (value : Value) :
    Variables → Variables → Prop where
  | written {root : Tag (Option Ty)} {name : String} {x : Variable} {slot : Value}
      {before : Variables} : p.root? = some (root, name) → before.find? name = some x →
      Value.Replaces value x.value indices slot →
      StoredAt p indices value before (before.insert name ⟨x.type, slot⟩)
  | skipped {before : Variables} : p.Skips indices before →
      StoredAt p indices value before before

/-- What is skipped is not written. -/
theorem StoredAt.eq_of_skips {p : TypedExpr} {indices : List Value} {value : Value}
    {before after : Variables} (h : StoredAt p indices value before after)
    (hskips : p.Skips indices before) : after = before := by
  cases h with
  | skipped => rfl
  | written hroot hx hreplaces =>
    obtain ⟨_, _, _, hroot', hx', hnowhere⟩ := hskips
    cases hroot.symm.trans hroot'
    cases hx.symm.trans hx'
    have hsome := Value.setElement_eq_some_iff.mpr hreplaces
    rw [Value.setElement_eq_none_iff.mpr hnowhere] at hsome
    cases hsome

/-- The value is written to the places from right to left, cast to the type of each. Every write
goes into the variables that the writes before it have left. -/
inductive Stores (v : Value) :
    List TypedExpr → List (List Value) → Variables → Variables → Prop where
  | nil (vars : Variables) : Stores v [] [] vars vars
  | cons {p : TypedExpr} {places : List TypedExpr} {indices : List Value}
      {rest : List (List Value)} {vars before after : Variables} : Stores v places rest vars before →
      indices.length = p.placeIndices.length → StoredAt p indices (v.castTo p.type) before after →
      Stores v (p :: places) (indices :: rest) vars after

/-- A variable that is given a value of its type holds this value. -/
theorem result_writeVariable_of_hasType (pos : Position) {name : String} {w : World σ}
    {x : Variable} (hx : w.vars.find? name = some x) {value : Value}
    (hvalue : value.HasType (some x.type)) :
    (writeVariable pos name value).result w =
      (.ok (), { w with vars := w.vars.insert name ⟨x.type, value⟩ }) := by
  rw [result_writeVariable, Variables.assign?, hx, Option.map_some, Variables.define,
    Variable.holding, hvalue.castTo_eq]

theorem storedAt_of_writePlace {pos rootPos : Position} {p : TypedExpr} {root : Tag (Option Ty)}
    {name : String} (hroot : p.root? = some (root, name)) {t u : Ty}
    (ht : D.variableType? name = some t) {indices : List Value} (hpath : Ty.Path t indices u)
    {value : Value} (hvalue : value.HasType (some u)) {w w' : World σ} (hw : w.vars.Conform D)
    (hresult : (writePlace pos rootPos name indices value).result w = (.ok (), w')) :
    StoredAt p indices value w.vars w'.vars ∧ w'.host = w.host := by
  obtain ⟨x, hx, rfl, hxt⟩ := hw.find? ht
  obtain ⟨r, hr, hrt⟩ := hpath.setElement hvalue hxt
  rw [result_writePlace pos rootPos hx hr] at hresult
  cases r with
  | none =>
    cases hresult
    exact ⟨.skipped ⟨root, name, x, hroot, hx, Value.setElement_eq_none_iff.mp hr⟩, rfl⟩
  | some slot =>
    rw [Option.elim_some, result_writeVariable_of_hasType rootPos hx (hrt slot rfl)] at hresult
    cases hresult
    exact ⟨.written hroot hx (Value.setElement_eq_some_iff.mp hr), rfl⟩

/-! ## The two phases of a chain -/

/-- The steps of an assignment that succeeds. -/
theorem eval_assignment_eq_ok {tag root : Tag (Option Ty)} {x v p : TypedExpr} {name : String}
    (hx : x.Plain) (hp : x.target? = some p) (hroot : p.root? = some (root, name))
    {w w' : World σ} {r : Value}
    (hresult : (eval functions ctx (.assignment tag x v)).result w = (.ok r, w')) :
    ∃ indices w₁ value w₂,
      (evalIndices functions ctx x).result w = (.ok indices, w₁) ∧
      (eval functions ctx v).result w₁ = (.ok value, w₂) ∧
      (writePlace tag.token.pos root.token.pos name indices (value.castTo p.type)).result w₂ =
        (.ok (), w') ∧
      r = (value.castTo p.type).castTo tag.note := by
  rw [eval_assignment functions ctx tag hp hroot, hx.isAssignment] at hresult
  obtain ⟨indices, w₁, hindices, hresult⟩ := result_bind_eq_ok.mp hresult
  obtain ⟨value, w₂, hvalue, hresult⟩ := result_bind_eq_ok.mp hresult
  obtain ⟨_, w₃, hwrite, hresult⟩ := result_bind_eq_ok.mp hresult
  cases hresult
  exact ⟨indices, w₁, value, w₂, hindices, hvalue, hwrite, rfl⟩

/-- **A chain runs in two phases.** A chain that succeeds has evaluated all indices and then the
value at its end in the variables that it began with; what it has made of these are the writes, from
the last place to the first. -/
theorem eval_chain (hfs : functions.Conform D) {s : TypedExpr} (hs : s.Statement)
    (h : WellTyped D s) {w w' : World σ} {r : Value} (hw : w.vars.Conform D)
    (hresult : (eval functions ctx s).result w = (.ok r, w')) :
    ∃ indices v w₁,
      EvaluatedIn functions ctx w.vars (s.chainPlaces.flatMap placeIndices ++ [s.chainValue])
        (indices.flatten ++ [v]) w w₁ ∧
      Stores v s.chainPlaces indices w.vars w'.vars ∧ w'.host = w₁.host ∧
      v.HasType s.chainValue.type ∧ Ty.Widens s.chainValue.type s.type ∧ r = v.castTo s.type := by
  induction hs generalizing w w' r with
  | @plain s hs =>
    have hvars : w'.vars = w.vars := (frames_eval functions ctx hs).vars_of_result hresult
    obtain ⟨hr, -⟩ := (h.keeps_eval hfs).ok hw hresult
    rw [hs.chain_eq.1, hs.chain_eq.2, hvars]
    exact ⟨[], r, w', .singleton rfl hresult hvars, .nil w.vars, rfl, hr, .refl _,
      hr.castTo_eq.symm⟩
  | @assignment tag x v hx _ ih =>
    cases h with
    | @assignment _ _ _ p hxt hvt hp ha hnote =>
    obtain ⟨root, name, t, u, hroot, ht, hu, hleads⟩ := hxt.leadsToPlace hfs ctx p hp
    have hassigned : Ty.Widens v.type p.type := by
      rw [hu] at ha ⊢
      exact Ty.widens_of_assignable ha
    obtain ⟨indices, w₁, value, w₂, hindices, hvalue, hwrite, rfl⟩ :=
      eval_assignment_eq_ok hx hp hroot hresult
    have hfirst := evaluatedIn_of_evalIndices hx hp hindices
    have hvars : w₁.vars = w.vars := hfirst.vars_eq.2
    obtain ⟨hpath, hw₁⟩ := hleads.ok hw hindices
    obtain ⟨-, hw₂⟩ := (hvt.keeps_eval hfs).ok hw₁ hvalue
    obtain ⟨rest, value, w₃, hrest, hstores, hhost, ht', hwidens, rfl⟩ :=
      ih hvt hw₁ hvalue
    rw [hvars] at hrest hstores
    -- every cast on the way widens, and the last one makes up for those before it
    have hcast := ht'.castTo (hwidens.trans hassigned)
    rw [ht'.castTo_castTo hwidens hassigned] at hwrite ⊢
    obtain ⟨hstored, hhost'⟩ :=
      storedAt_of_writePlace hroot ht hpath (hu ▸ hcast) hw₂ hwrite
    rw [chainPlaces_assignment hp]
    refine ⟨indices :: rest, value, w₃, ?_, .cons hstores hfirst.length_eq hstored,
      hhost'.trans hhost, ht', ?_, ?_⟩
    · rw [List.flatMap_cons, List.flatten_cons, List.append_assoc, List.append_assoc]
      exact hfirst.append hrest
    · show Ty.Widens v.chainValue.type tag.note
      rw [hnote]
      exact hwidens.trans hassigned
    · show (value.castTo p.type).castTo tag.note = value.castTo tag.note
      rw [hnote, hcast.castTo_eq]

/-! ## Reading a place -/

/-- Reading a place follows the values of its indices from the value of the variable at its root. -/
theorem eval_place (hfs : functions.Conform D) {p : TypedExpr} (h : WellTyped D p)
    (hplace : p.isPlace = true) {w w' : World σ} (hw : w.vars.Conform D) {indices : List Value}
    (hindices : EvaluatedIn functions ctx w.vars p.placeIndices indices w w') :
    ∃ root name x v, p.root? = some (root, name) ∧ w.vars.find? name = some x ∧
      x.value.elementAt indices = .ok v ∧ v.HasType p.type ∧
      (eval functions ctx p).result w = (.ok v, w') := by
  induction h generalizing w' indices with
  | @var tag name t ht hnote =>
    obtain ⟨x, hx, -, hxt⟩ := hw.find? ht
    rw [← hnote] at hxt
    cases hindices
    refine ⟨tag, name, x, x.value, rfl, hx, rfl, hxt, ?_⟩
    rw [eval_var, result_bind_of_ok (result_readVariable_of_find? _ hx), result_pure, hxt.castTo_eq]
  | @element tag a i t _ hi ht hnote iha =>
    obtain ⟨outer, index, w₁, rfl, houter, hindex⟩ := hindices.of_concat
    obtain ⟨root, name, x, array, hroot, hx, hat, harray, hevaluated⟩ := iha hplace houter
    have hw₁ : w₁.vars.Conform D := houter.vars_eq.2 ▸ hw
    obtain ⟨v, hv, hvt⟩ :=
      element_of_elementType ht harray ((hi.keeps_eval hfs).ok hw₁ hindex).1
    refine ⟨root, name, x, v, hroot, hx, ?_, hvt.notedAs hnote, ?_⟩
    · rw [Value.elementAt_concat, hat, ok_bind, hv]
    · rw [eval_element, result_bind_of_ok hevaluated, result_bind_of_ok hindex, hv,
        result_bind_of_ok (result_located_ok ..), result_pure, hvt.castTo_of_notedAs hnote]
  | _ => cases hplace

/-- What was written is read back. -/
theorem StoredAt.eval_place (hfs : functions.Conform D) {p : TypedExpr} (h : WellTyped D p)
    (hplace : p.isPlace = true) {indices : List Value} {value : Value} {before : Variables}
    {w w' : World σ} (hw : w.vars.Conform D) (hstored : StoredAt p indices value before w.vars)
    (hwritten : ¬p.Skips indices before)
    (hindices : EvaluatedIn functions ctx w.vars p.placeIndices indices w w') :
    (eval functions ctx p).result w = (.ok value, w') := by
  obtain ⟨root, name, x, v, hroot, hx, hv, -, hread⟩ :=
    TypedExpr.eval_place hfs h hplace hw hindices
  generalize w.vars = after at hstored hx
  cases hstored with
  | skipped hskips => exact absurd hskips hwritten
  | written hroot' _ hreplaces =>
    cases hroot.symm.trans hroot'
    rw [Variables.find?_insert, if_pos rfl] at hx
    cases hx
    cases hv.symm.trans hreplaces.elementAt
    exact hread

/-- The first place of a chain is the one of which the chain has the type. -/
theorem first_of_chainPlaces {s p : TypedExpr} {places : List TypedExpr} (h : WellTyped D s)
    (hplaces : s.chainPlaces = p :: places) :
    WellTyped D p ∧ p.isPlace = true ∧ s.type = p.type := by
  cases h with
  | assignment hx _ hp _ hnote =>
    rw [chainPlaces_assignment hp] at hplaces
    cases hplaces
    exact ⟨(hx.target? hp).1, (hx.target? hp).2, hnote⟩
  | _ => cases hplaces

/-- The statements of a program that is well-typed. -/
theorem statement_of_mem {e s : TypedExpr} (hprogram : e.Program) (h : WellTyped D e)
    (hs : s ∈ e.statements) : s.Statement ∧ WellTyped D s := by
  cases hprogram with
  | statement hstatement =>
    rw [hstatement.statements_eq, List.mem_singleton] at hs
    subst hs
    exact ⟨hstatement, h⟩
  | sequence hss => exact ⟨hss s hs, h.statements s hs⟩

end TypedExpr

/-! ## Whole evaluations -/

namespace Environment

variable {σ : Type}

/-- **Chained and element assignments lose no update.** A statement `p = p₂ = … = e` of a checked
text that succeeds in a conforming environment evaluates all indices from left to right and then `e`,
in the variables at its beginning. Then it writes the places from right to left, each write going
into what the ones before it have left, and each with the value cast to the type of the place. It
yields the value cast to the type of `p`, whether `p` was written or skipped. If it was skipped, its
write has changed nothing; if not, reading `p` afterwards yields the same value again, as long as the
indices have the same values. -/
theorem evaluate_chain {D : Declarations} {text : String} {checked s p : TypedExpr}
    {places : List TypedExpr} (hchecks : Checks D text checked) (hs : s ∈ checked.statements)
    (hplaces : s.chainPlaces = p :: places) (env : Environment σ) (henv : env.Conforms)
    (hdeclarations : env.declarations = D) (host : σ) (ctx : MathContext) {r : Value}
    (hok : (env.evaluate host ctx s).outcome = .ok r) :
    ∃ (indices : List Value) (rest : List (List Value)) (v : Value) (w : World σ)
      (before after : Variables),
      TypedExpr.EvaluatedIn env.functions ctx env.vars
        ((p :: places).flatMap Expr.placeIndices ++ [s.chainValue])
        ((indices :: rest).flatten ++ [v]) (env.world host) w ∧
      TypedExpr.Stores v places rest env.vars before ∧
      indices.length = p.placeIndices.length ∧
      TypedExpr.StoredAt p indices (v.castTo p.type) before after ∧
      (env.evaluate host ctx s).environment = { env with vars := after } ∧
      (env.evaluate host ctx s).host = w.host ∧
      r = v.castTo p.type ∧
      (p.Skips indices before → after = before) ∧
      (¬p.Skips indices before → ∀ host' ctx' w',
        TypedExpr.EvaluatedIn env.functions ctx' after p.placeIndices indices
          ({ env with vars := after }.world host') w' →
        ({ env with vars := after }.evaluate host' ctx' p).outcome = .ok r) := by
  subst hdeclarations
  have hfs := henv.conform_functions
  obtain ⟨hstatement, htyped⟩ :=
    TypedExpr.statement_of_mem hchecks.program hchecks.wellTyped hs
  obtain ⟨hp, hplace, htype⟩ := TypedExpr.first_of_chainPlaces htyped hplaces
  cases hresult : (TypedExpr.eval env.functions ctx s).result (env.world host) with
  | mk outcome w' =>
    obtain rfl : outcome = .ok r := by
      rw [evaluate_eq, hresult] at hok
      exact hok
    obtain ⟨allIndices, v, w, hevaluated, hstores, hhost, -, -, hr⟩ :=
      TypedExpr.eval_chain hfs hstatement htyped henv.vars hresult
    have hconform : w'.vars.Conform env.declarations :=
      ((htyped.keeps_eval hfs).ok henv.vars hresult).2
    rw [hplaces] at hevaluated hstores
    rw [htype] at hr
    cases hstores with
    | @cons _ _ indices rest _ before _ hbefore hlength hstored =>
      rw [evaluate_of_ok hresult]
      refine ⟨indices, rest, v, w, before, w'.vars, hevaluated, hbefore, hlength, hstored, rfl,
        hhost, hr, hstored.eq_of_skips, ?_⟩
      intro hwritten host' ctx' w'' hindices
      have hread := hstored.eval_place hfs hp hplace
        (w := { env with vars := w'.vars }.world host') hconform hwritten hindices
      rw [evaluate_of_ok hread, hr]

/-- A chain over three elements of one array and a variable that is an index on the way. The element
out of range is skipped, and the index is the old value of the variable. -/
theorem evaluate_chain_elements :
    ∃ (env : Environment Unit) (checked p : TypedExpr) (places : List TypedExpr)
      (indices : List Value) (rest : List (List Value)) (v : Value) (w : World Unit)
      (before after : Variables),
      env = (standard.define "xs" (.array .decimal 1)
        (.array [.decimal (.ofInt 1), .decimal (.ofInt 2), .null])).define "i" .integer (.integer 1) ∧
      Checks env.declarations "xs[0] = xs[3] = xs[i] = i = 2 + 5" checked ∧
      checked.chainPlaces = p :: places ∧
      TypedExpr.EvaluatedIn env.functions .standard env.vars
        ((p :: places).flatMap Expr.placeIndices ++ [checked.chainValue])
        ((indices :: rest).flatten ++ [v]) (env.world ()) w ∧
      TypedExpr.Stores v places rest env.vars before ∧
      TypedExpr.StoredAt p indices (v.castTo p.type) before after ∧
      (env.evaluate () .standard checked).outcome = .ok (.decimal (.ofInt 7)) ∧
      after.find? "xs" = some ⟨.array .decimal 1,
        .array [.decimal (.ofInt 7), .decimal (.ofInt 7), .null]⟩ ∧
      after.find? "i" = some ⟨.integer, .integer 7⟩ := by
  let env : Environment Unit := (standard.define "xs" (.array .decimal 1)
    (.array [.decimal (.ofInt 1), .decimal (.ofInt 2), .null])).define "i" .integer (.integer 1)
  obtain ⟨checked, hchecked, hstatement, p, places, hplaces, hok, hxs, hi⟩ : ∃ checked,
      checkText? env.declarations "xs[0] = xs[3] = xs[i] = i = 2 + 5" = some checked ∧
      checked.statements = [checked] ∧
      ∃ p places, checked.chainPlaces = p :: places ∧
        (env.evaluate () .standard checked).outcome = .ok (.decimal (.ofInt 7)) ∧
        (env.evaluate () .standard checked).environment.vars.find? "xs" =
          some ⟨.array .decimal 1, .array [.decimal (.ofInt 7), .decimal (.ofInt 7), .null]⟩ ∧
        (env.evaluate () .standard checked).environment.vars.find? "i" =
          some ⟨.integer, .integer 7⟩ :=
    ⟨_, by cbv, by cbv, _, _, by cbv, by cbv, by cbv, by cbv⟩
  have hitems : (Value.array [.decimal (.ofInt 1), .decimal (.ofInt 2), .null]).HasType
      (some (.array .decimal 1)) := by
    refine .array fun v hv => ?_
    simp only [List.mem_cons, List.not_mem_nil, or_false] at hv
    rcases hv with rfl | rfl | rfl
    · exact .decimal _
    · exact .decimal _
    · exact .null _
  have henv : env.Conforms :=
    (conforms_standard.define "xs" (hitems.castTo (.refl _))).define "i"
      ((Value.HasType.integer 1).castTo (.refl _))
  obtain ⟨indices, rest, v, w, before, after, hevaluated, hstores, -, hstored, henvironment, -⟩ :=
    evaluate_chain (checks_iff.mpr hchecked) (by rw [hstatement]; exact List.mem_singleton_self _)
      hplaces env henv rfl () .standard hok
  rw [henvironment] at hxs hi
  exact ⟨env, checked, p, places, indices, rest, v, w, before, after, rfl, checks_iff.mpr hchecked,
    hplaces, hevaluated, hstores, hstored, hok, hxs, hi⟩

end Environment

end ComputedField
