import EcmaScript.Proofs.Scope.Script

/-!
# `yield` and `await` among parameters

The parameters of a generator are read by the rules of the generator, so a `yield` can be read anywhere among them,
and in an asynchronous function an `await` can. Neither may stand there. Lowering looks for them in the default of a
parameter itself (`Occurrence.faults`); it does not look into the patterns, whose defaults and computed keys may hold
them too. In a function that is no generator, or not asynchronous, they are objected to wherever they are.

## Contents

* `Part.isLocal`: what expressions are made of.
* `Occurrence.Shares.enclosing`: what shares a function has the same enclosures.
* `Occurrence.parameters`, `Occurrence.Checked`: parameters, and the places among them that are looked at.
* `suspension_among_parameters_reported`: a parse.
-/

namespace EcmaScript

open IsPart (part)

/-- Objections to `yield` and `await`. -/
@[reducible] def Problem.isSuspension : Problem → Bool
  | yieldOutsideGenerator | awaitOutsideAsync | yieldInParameterDefault | awaitInParameterDefault => true
  | _ => false

/-! ## Inside one function -/

/-- What expressions are made of, down to functions and classes. -/
def Part.isLocal : Part → Bool
  | expression _ | element _ | property _ | key _ | function _ | classDefinition _ => true
  | _ => false

section Pieces

open Piece

attribute [local simp] Expression.pieces ArrayElement.pieces Property.pieces PropertyKey.pieces partsAll parts
  IsPart.part Part.isLocal

theorem Part.isLocal_template (texts : List TemplateText) (es : List Expression) :
    (partsAll (template texts es)).all isLocal = true := by
  rw [List.all_eq_true]
  intro p hp
  obtain ⟨e, -, rfl⟩ := List.mem_map.mp (partsAll_template_subset texts es hp)
  rfl

attribute [local simp] Part.isLocal_template

theorem Part.isLocal_expression (e : Expression) : (partsAll e.pieces).all isLocal = true := by
  cases e with
  | sequence es s => cases es <;> simp
  | _ => simp

theorem Part.isLocal_element (e : ArrayElement) : (partsAll e.pieces).all isLocal = true := by
  cases e <;> simp

theorem Part.isLocal_property (p : Property) : (partsAll p.pieces).all isLocal = true := by
  cases p <;> simp

theorem Part.isLocal_key (k : PropertyKey) : (partsAll k.pieces).all isLocal = true := by
  cases k <;> simp

/-- What an expression shows is made of expressions. -/
theorem Part.isLocal_shown {p : Part} (hp : p.isLocal = true) (hn : ∀ f, p ≠ .function f)
    (hc : ∀ c, p ≠ .classDefinition c) : (partsAll p.pieces).all isLocal = true := by
  cases p with
  | expression e => exact isLocal_expression e
  | element e => exact isLocal_element e
  | property p => exact isLocal_property p
  | key k => exact isLocal_key k
  | function f => exact absurd rfl (hn f)
  | classDefinition c => exact absurd rfl (hc c)
  | _ => cases hp

end Pieces

namespace Occurrence

variable {q r u : Occurrence}

/-- Right below what an expression is made of nothing new encloses a place, unless it is a function or a class. -/
theorem enclosing_of_mem_inner (hq : q.construct.isLocal = true) (hn : q.nests = false) (h : r ∈ q.inner) :
    r.enclosing = q.enclosing := by
  obtain ⟨es, use, p⟩ := q
  unfold inner at h
  dsimp only at h
  split at h <;> first
    | exact absurd hq Bool.false_ne_true
    | exact absurd hn.symm Bool.false_ne_true
    | try split at h
  all_goals first
    | exact (of_mem_listed h).1
    | grind

theorem isLocal_of_mem_inner (hq : q.construct.isLocal = true) (hn : q.nests = false) (h : r ∈ q.inner) :
    r.construct.isLocal = true := by
  have hshown := Part.isLocal_shown hq (fun f hf => by simp [nests, hf] at hn) fun c hc => by simp [nests, hc] at hn
  exact List.all_eq_true.mp hshown _ (q.inner_sublist.subset (List.mem_map_of_mem h))

/-- **What shares a function has the same enclosures.** -/
theorem Shares.enclosing (h : Shares q u) (hq : q.construct.isLocal = true) : u.enclosing = q.enclosing := by
  induction h with
  | self q => rfl
  | inner hn hr _ ih => exact (ih (isLocal_of_mem_inner hq hn hr)).trans (enclosing_of_mem_inner hq hn hr)

/-! ## Parameters -/

/-- The parameters of a function. -/
def parameters (q : Occurrence) : List Occurrence :=
  match q.construct with
  | .function (.mk _ items trailingComma _ _ kind isAsync isGenerator _) =>
    listed (.boundary (Lowering.boundaryOf kind) isGenerator isAsync :: q.enclosing)
      (fun isLast => .parameter ⟨isLast, trailingComma, (Lowering.accessorProblem? kind items).isSome⟩)
      (items.map part)
  | _ => []

/-- The default of a parameter itself. -/
def default? (p : Occurrence) : Option Occurrence :=
  match p.construct with
  | .expression (.assignment .assign _ right _) => some ⟨p.enclosing, .value, part right⟩
  | _ => none

def isYield (q : Occurrence) : Bool :=
  match q.construct with
  | .expression (.yield ..) => true
  | _ => false

def isAwait (q : Occurrence) : Bool :=
  match q.construct with
  | .expression (.await ..) => true
  | _ => false

/-- Whether a `yield` or `await` in the parameter `p` of the function is looked at: in the default of the parameter
itself, and everywhere if the function allows none in its body either. -/
def Checked (f : Function) (p u : Occurrence) : Prop :=
  (∃ d, p.default? = some d ∧ Shares d u) ∨
  (f.isGenerator = false ∧ u.isYield = true) ∨ (f.isAsync = false ∧ u.isAwait = true)

variable {p : Occurrence} {f : Function} {x : Span × Problem}

theorem mem_inner_of_mem_parameters (hp : p ∈ q.parameters) : p ∈ q.inner := by
  unfold parameters at hp
  unfold inner
  split at hp
  next hq =>
    rw [hq]
    exact List.mem_append_left _ hp
  · cases hp

/-- A parameter stands in its function, and is an expression. -/
theorem of_mem_parameters (hq : q.construct = .function f) (hp : p ∈ q.parameters) :
    p.enclosing = .boundary (Lowering.boundaryOf f.kind) f.isGenerator f.isAsync :: q.enclosing ∧
    (∃ place, p.use = .parameter place) ∧ p.construct.isLocal = true := by
  obtain ⟨name, items, trailingComma, parametersSpan, body, kind, isAsync, isGenerator, span⟩ := f
  unfold parameters at hp
  rw [hq] at hp
  obtain ⟨henclosing, ⟨isLast, huse⟩, hmem⟩ := of_mem_listed hp
  obtain ⟨e, -, he⟩ := List.mem_map.mp hmem
  exact ⟨henclosing, ⟨_, huse⟩, he ▸ rfl⟩

/-- What is objected to in the default of a parameter. -/
theorem fault_of_default {place : ParameterPlace} {d : Occurrence} (hp : p.use = .parameter place)
    (hd : p.default? = some d) (hu : Shares d u) (hx : u.suspension? = some x) : (x.1.start, x.2) ∈ p.faults := by
  unfold default? at hd
  unfold faults
  split at hd
  next left right s hc =>
    cases hd
    rw [hc, hp]
    exact ⟨x, ⟨u, hu, hx⟩, rfl⟩
  · cases hd

theorem boundaryOf_ne_script (kind : FunctionKind) : (Lowering.boundaryOf kind != .script) = true := by
  cases kind <;> rfl

/-- A `yield` in a function that is no generator. -/
theorem fault_of_yield (hu : u.isYield = true) (hx : u.suspension? = some x)
    (hg : Enclosure.inGenerator u.enclosing = false) : (x.1.start, .yieldOutsideGenerator) ∈ u.faults := by
  unfold isYield at hu
  split at hu
  next argument delegates s hc =>
    unfold suspension? at hx
    unfold faults
    rw [hc] at hx ⊢
    cases hx
    rw [hg]
    rfl
  · cases hu

/-- An `await` in a function that is not asynchronous. -/
theorem fault_of_await (hu : u.isAwait = true) (hx : u.suspension? = some x)
    (hd : Enclosure.deniesAwait u.enclosing = true) : (x.1.start, .awaitOutsideAsync) ∈ u.faults := by
  unfold isAwait at hu
  split at hu
  next argument s hc =>
    unfold suspension? at hx
    unfold faults
    rw [hc] at hx ⊢
    cases hx
    rw [hd]
    rfl
  · cases hu

theorem isSuspension_of_suspension? (h : u.suspension? = some x) : x.2.isSuspension = true := by
  unfold suspension? at h
  split at h <;> cases h <;> rfl

/-- **What is looked at is objected to**, at the parameter or at the place itself. -/
theorem Checked.fault (h : Checked f p u) (hq : q.construct = .function f) (hp : p ∈ q.parameters)
    (hu : Shares p u) (hx : u.suspension? = some x) :
    ∃ r, Inside q r ∧ ∃ problem : Problem, problem.isSuspension = true ∧ (x.1.start, problem) ∈ r.faults := by
  obtain ⟨henclosing, ⟨place, huse⟩, hlocal⟩ := of_mem_parameters hq hp
  have hinside : Inside q u := .inner (mem_inner_of_mem_parameters hp) hu.inside
  have hsame := (hu.enclosing hlocal).trans henclosing
  rcases h with ⟨d, hd, hdu⟩ | ⟨hg, hy⟩ | ⟨ha, hw⟩
  · exact ⟨p, .inner (mem_inner_of_mem_parameters hp) (.self p), x.2, isSuspension_of_suspension? hx,
      fault_of_default huse hd hdu hx⟩
  · exact ⟨u, hinside, _, rfl, fault_of_yield hy hx (by rw [hsame]; exact hg)⟩
  · refine ⟨u, hinside, _, rfl, fault_of_await hw hx ?_⟩
    rw [hsame]
    exact Bool.and_eq_true_iff.mpr ⟨by rw [ha]; rfl, boundaryOf_ne_script f.kind⟩

end Occurrence

/-! ## The whole parse -/

/-- **Every `yield` and `await` among the parameters of a function that is looked at is reported**, where it stands
in no function and no class of its own. -/
theorem suspension_among_parameters_reported (name source : String) (o : Options) :
    ∀ q ∈ (Script.ofText name source o).occurrences source.length, ∀ f, q.construct = .function f →
      ∀ p ∈ q.parameters, ∀ u, Occurrence.Shares p u → ∀ x, u.suspension? = some x → Occurrence.Checked f p u →
        ∃ problem : Problem, problem.isSuspension = true ∧
          Findings.objection name x.1.start problem ∈ (parse name source o).sink.reported := by
  intro q hq f hf p hp u hu x hx hchecked
  obtain ⟨r, hr, problem, hproblem, hfault⟩ := hchecked.fault hf hp hu hx
  exact ⟨problem, hproblem, Occurrence.fault_reported (Script.mem_occurrences_of_inside hq hr) hfault⟩

/-- Whether the statements are a function whose parameter has a `yield` as its default. -/
def readsYieldDefault : List Statement → Bool
  | [.function (.mk _ [.assignment .assign (.identifier _) (.yield none _ _) _] _ _ _ _ _ _ _)] => true
  | _ => false

/-- A `yield` in the default of a parameter. -/
theorem suspension_among_parameters_reported_default :
    let source := "function* g(a = yield) {}"
    ∃ q ∈ (Script.ofText "a.js" source {}).occurrences source.length, ∃ f, q.construct = .function f ∧
      ∃ p ∈ q.parameters, ∃ u, Occurrence.Shares p u ∧ ∃ x, u.suspension? = some x ∧ Occurrence.Checked f p u ∧
        ∃ problem : Problem, problem.isSuspension = true ∧
          Findings.objection "a.js" x.1.start problem ∈ (parse "a.js" source {}).sink.reported := by
  intro source
  have hread : readsYieldDefault ((Script.ofText "a.js" source {}).readStatements source.length) = true := by
    decide +kernel
  unfold readsYieldDefault at hread
  split at hread
  next name a delegates s t trailing u body kind isAsync isGenerator v hlist =>
    let item : Expression := .assignment .assign (.identifier a) (.yield none delegates s) t
    let f : Function := .mk name [item] trailing u body kind isAsync isGenerator v
    let q : Occurrence := ⟨[], .value, part f⟩
    let es := [Enclosure.boundary (Lowering.boundaryOf kind) isGenerator isAsync]
    let p : Occurrence := ⟨es, .parameter ⟨true, trailing, (Lowering.accessorProblem? kind [item]).isSome⟩, part item⟩
    let d : Occurrence := ⟨es, .value, part (Expression.yield none delegates s)⟩
    have hq : q ∈ (Script.ofText "a.js" source {}).occurrences source.length :=
      Script.mem_occurrences _ (hlist ▸ List.mem_cons_self) (.inner List.mem_cons_self (.self _))
    have hp : p ∈ q.parameters := List.mem_cons_self
    have hd : p.Shares d := .inner rfl (List.mem_cons_of_mem _ List.mem_cons_self) (.self d)
    have hchecked : Occurrence.Checked f p d := .inl ⟨d, rfl, .self d⟩
    exact ⟨q, hq, f, rfl, p, hp, d, hd, _, rfl, hchecked,
      suspension_among_parameters_reported "a.js" source {} q hq f rfl p hp d hd _ rfl hchecked⟩
  · cases hread

/-- Whether the statements are a generator with an array as its parameter, whose entry has a `yield` as its
default. -/
def readsYieldInPattern : List Statement → Bool
  | [.function (.mk _ [.array [.item (.assignment .assign (.identifier _) (.yield none _ _) _)] _ _] _ _ _ _ _ true
      _)] => true
  | _ => false

/-- The default of an entry of an array is not looked at. -/
theorem suspension_in_pattern_not_reported :
    let source := "function* g([a = yield]) {}"
    let options : Options := { onError := .keepGoing }
    (parse "a.js" source options).sink.reported = #[] ∧
    ∃ q ∈ (Script.ofText "a.js" source options).occurrences source.length, ∃ f, q.construct = .function f ∧
      f.isGenerator = true ∧ ∃ p ∈ q.parameters, ∃ u, Occurrence.Shares p u ∧ u.isYield = true := by
  intro source options
  obtain ⟨hsize, hread⟩ : (parse "a.js" source options).sink.reported.size = 0 ∧
      readsYieldInPattern ((Script.ofText "a.js" source options).readStatements source.length) = true := by
    decide +kernel
  refine ⟨Array.eq_empty_of_size_eq_zero hsize, ?_⟩
  unfold readsYieldInPattern at hread
  split at hread
  next name a delegates s t comma r trailing u body kind isAsync v hlist =>
    have hq : ⟨[], .value, .function _⟩ ∈ (Script.ofText "a.js" source options).occurrences source.length :=
      Script.mem_occurrences _ (hlist ▸ List.mem_cons_self) (.inner List.mem_cons_self (.self _))
    let es := [Enclosure.boundary (Lowering.boundaryOf kind) true isAsync]
    let d : Occurrence := ⟨es, .value, part (Expression.yield none delegates s)⟩
    refine ⟨_, hq, _, rfl, rfl, _, List.mem_cons_self, d, ?_, rfl⟩
    refine .inner rfl List.mem_cons_self (.inner rfl List.mem_cons_self ?_)
    exact .inner rfl (List.mem_cons_of_mem _ List.mem_cons_self) (.self d)
  · cases hread

end EcmaScript
