import EcmaScript.Proofs.Lowering.Tree
import EcmaScript.Proofs.Scope.Account
import EcmaScript.Proofs.Scope.Suspension

/-!
# Rules that object

The rules of lowering that look at the tables, or at one entry of a list, object to what is wrong with the
occurrence they are asked about and to nothing else of the kind. Where a rule looks at the tables they are those
inside the enclosures of the place (`Objects.bindScopes`), so each question has the answer that the enclosures
give.

## Contents

* `Objects.bindScopes`: a rule that looks at the tables.
* `Objects.breakNode`, `Objects.continueNode`, `Objects.insideLabel`: jumps and labels.
* `Objects.checkPrivate`, `Objects.memberNode`: private names.
* `Objects.checkRest`, `Objects.checkAssignment`, `Objects.checkAccessor`: patterns and parameters.
* `Objects.checkYield`, `Objects.checkAwait`, `Objects.checkDefault`: `yield` and `await`.
* `Objects.classKeyNode` and the lemmas behind it: rules that run a part of lowering.
-/

namespace EcmaScript

open IsPart (part)

namespace Lowering

-- An instance for a rule is as large as the rule.
set_option synthInstance.maxSize 2000

open Occurrence

/-- What can be wrong with the parameters of an accessor. -/
theorem accessorProblem?_cases {kind : FunctionKind} {items : List Expression} {problem : Problem}
    (h : accessorProblem? kind items = some problem) :
    (∃ n, problem = .getterParameters n) ∨ (∃ n, problem = .setterParameters n) ∨ problem = .setterRest := by
  unfold accessorProblem? at h
  split at h
  · split at h <;> cases h
    exact .inl ⟨_, rfl⟩
  · split at h
    · cases h
      exact .inr (.inl ⟨_, rfl⟩)
    · split at h <;> cases h
      exact .inr (.inr rfl)
  · cases h

namespace Objects

variable {α β : Type} {es : List Enclosure} {U V : Multiset Occurrence} {p : Lowering α} {q : Occurrence} {use : Use}

/-! ## Rules that look at the tables -/

/-- The tables are those inside the enclosures. -/
theorem bindScopes {f : Scopes → Lowering α} (h : Objects es U (f (.around es))) :
    Objects es U (scopes >>= f) := by
  refine congr h fun s hs => ?_
  show f s.scopes s = _
  rw [hs]

/-- Enclosures with the same tables. -/
theorem transport {fs : List Enclosure} (e : Scopes.around es = Scopes.around fs) (h : Objects fs U p) :
    Objects es U p := by
  refine ⟨fun s hs => ?_⟩
  rw [e]
  exact h.run s (hs.trans e)

theorem census_leaf (h : q.inner = []) : q.census = {q} := by
  rw [census_eq, h, censusAll_nil, add_zero]

/-- An objection to an occurrence. -/
theorem wrong {position : Position} {problem : Problem} (h : q.problem? = some (position, problem))
    (hf : q.faults = ∅) : Objects es {q} (error position problem) := by
  have ho : Objects es {q} (object q.problem?) := object_problem? hf
  rwa [h] at ho

/-- What an objection is followed by. -/
theorem instead {f : α → β} (h : Objects es U p) : Objects es U (p >>= fun a => pure (f a)) :=
  instBindLast

/-! ### Jumps and labels -/

theorem breakNode (label : Option Identifier) (span : Span) :
    Objects es (census ⟨es, .value, .statement (.break label span)⟩) (Lowering.breakNode label span) := by
  rw [census_leaf (by cases label <;> rfl)]
  refine bindScopes ?_
  cases label with
  | none =>
      dsimp only
      rw [Scopes.inBreakable_around]
      cases h : Enclosure.inBreakable es with
      | true => exact spared (by simp [problem?, jumpProblem?, privateProblem?, h]) rfl
      | false => exact (wrong (by simp [problem?, jumpProblem?, h]) rfl).instead
  | some label =>
      dsimp only
      rw [Scopes.findLabel?_around]
      cases h : Enclosure.labelled? label.name es with
      | some body => exact spared (by simp [problem?, jumpProblem?, privateProblem?, h]) rfl
      | none => exact (wrong (by simp [problem?, jumpProblem?, h]) rfl).instead

theorem continueNode (label : Option Identifier) (span : Span) :
    Objects es (census ⟨es, .value, .statement (.continue label span)⟩) (Lowering.continueNode label span) := by
  rw [census_leaf (by cases label <;> rfl)]
  refine bindScopes ?_
  cases label with
  | none =>
      dsimp only
      rw [Scopes.inLoop_around]
      cases h : Enclosure.inLoop es with
      | true => exact spared (by simp [problem?, jumpProblem?, privateProblem?, h]) rfl
      | false => exact (wrong (by simp [problem?, jumpProblem?, h]) rfl).instead
  | some label =>
      dsimp only
      rw [Scopes.findLabel?_around]
      cases h : Enclosure.labelled? label.name es with
      | none => exact (wrong (by simp [problem?, jumpProblem?, h]) rfl).instead
      | some body =>
          show Objects es _ (if !body.labelsLoop then _ else _)
          cases hl : body.labelsLoop with
          | true => exact spared (by simp [problem?, jumpProblem?, privateProblem?, h, hl]) rfl
          | false => exact (wrong (by simp [problem?, jumpProblem?, h, hl]) rfl).instead

/-- A label is entered, or objected to as a duplicate. -/
theorem insideLabel (label : Identifier) (body : Statement) (span : Span)
    (h : Objects (.labelled label.name body :: es) U p) :
    Objects es ({⟨es, .value, .statement (.labeled label body span)⟩} + U)
      (Lowering.insideLabel label body.labelsLoop p) := by
  have htables : Scopes.around (.labelled label.name body :: es) =
    (Scopes.around es).enterLabel ⟨label.name, body.labelsLoop⟩ := rfl
  unfold Scopes.enterLabel at htables
  rw [Scopes.findLabel?_around] at htables
  refine bindScopes ?_
  rw [Scopes.findLabel?_around]
  cases hl : Enclosure.labelled? label.name es with
  | none =>
      rw [hl] at htables
      refine irrelevant (by simp [problem?, jumpProblem?, privateProblem?, hl]) rfl ?_
      exact between (.labelled label.name body) (Scopes.popLabel_pushLabel ⟨label.name, body.labelsLoop⟩) htables.symm
  | some outer =>
      rw [hl] at htables
      exact (wrong (by simp [problem?, jumpProblem?, hl]) rfl).bind fun _ => transport htables.symm h

/-! ### Private names -/

/-- A reference is looked up in the class bodies. -/
theorem checkPrivate {name : Identifier} {undeclared : Problem} (h : q.problem? = unresolved? es name undeclared)
    (hf : q.faults = ∅) : Objects es {q} (Lowering.checkPrivate name undeclared) := by
  refine bindApart inferInstance fun _ => bindScopes ?_
  rw [Scopes.inClass_around, Scopes.declaresPrivate_around]
  unfold unresolved? at h
  cases hc : Enclosure.inClass es with
  | false => exact wrong (by rw [h, if_pos hc]) hf
  | true =>
      rw [if_neg (by simp [hc])] at h
      cases hd : Enclosure.declares name.name es with
      | false => exact wrong (by rw [h, if_neg (by simp [hd])]) hf
      | true => exact spared (by rw [h, if_pos hd]) hf

theorem privateOperand (name : Identifier) :
    Objects es (census ⟨es, .tested, .expression (.privateName name)⟩) (Lowering.privateOperand name) := by
  rw [census_leaf rfl]
  exact (checkPrivate rfl rfl).instead

theorem misplacedPrivateName (name : Identifier) (h : use ≠ .tested) :
    Objects es (census ⟨es, use, .expression (.privateName name)⟩) (Lowering.misplacedPrivateName name) := by
  rw [census_leaf rfl]
  exact (wrong (by simp [problem?, jumpProblem?, privateProblem?, h]) rfl).instead

/-- An access by name looks a private name up. -/
theorem memberNode (place : ChainPlace) (node : Node) (receiver : Expression) (property : MemberName)
    (optional isCallee : Bool) (span : Span) (h : isCallee = (use == .callee)) :
    Objects es {⟨es, use, .expression (.member receiver property optional span)⟩}
      (Lowering.memberNode place node property isCallee span) := by
  cases property with
  | plain name =>
      unfold Lowering.memberNode
      exact irrelevant rfl rfl instApart
  | hidden name =>
      have hc : Objects es {⟨es, use, .expression (.member receiver (.hidden name) optional span)⟩}
          (Lowering.checkPrivate name (if isCallee then .privateMethodUndeclared else .privateFieldUndeclared)) := by
        refine checkPrivate ?_ rfl
        simp [problem?, jumpProblem?, privateProblem?, h]
      exact hc.instead

/-! ## Rules that find faults -/

/-- An objection to a rest entry that is not the last one, or that a comma follows. -/
theorem checkRest {isLast trailingComma : Bool} {span : Span} (hp : q.problem? = none)
    (hf : q.faults = restFaults isLast trailingComma span) :
    Objects es {q} (Lowering.checkRest isLast trailingComma span) := by
  unfold restFaults at hf
  unfold Lowering.checkRest
  cases isLast with
  | false => exact fault hp rfl hf.subset
  | true =>
      cases trailingComma with
      | false => exact spared hp hf
      | true => exact fault hp rfl hf.subset

/-- An objection to an assignment where something is stored into. -/
theorem checkAssignment (role : Role) (operator : AssignmentOperator) (left right : Expression) (span : Span)
    (h : ∀ place, role = .parameter place → operator ≠ .assign) :
    Objects es {⟨es, role.use, .expression (.assignment operator left right span)⟩}
      (role.check (.assignment operator left right span)) := by
  cases role with
  | value | callee => exact spared rfl rfl
  | target kind =>
      show Objects es _ (Role.checkTarget kind _)
      unfold Role.checkTarget
      rw [show Role.isTarget kind (.assignment operator left right span) = false from Bool.and_false _]
      exact fault rfl rfl (subset_refl _)
  | entry kind => exact irrelevant rfl rfl instApart
  | rest kind =>
      have hf : Objects es {⟨es, .rest, .expression (.assignment operator left right span)⟩}
          (error span.start .defaultAfterRest) := fault rfl rfl (subset_refl _)
      cases operator with
      | assign => exact hf
      | _ => exact instBindLast
  | parameter place =>
      refine irrelevant rfl ?_ instApart
      exact if_neg (h place rfl)

/-- An objection to `await` is made at once where it is denied. -/
theorem checkAwait {position : Position} {problem : Problem} (hp : q.problem? = none)
    (hk : problem.isScoped = false)
    (hf : q.faults = if Enclosure.deniesAwait es then {(position, problem)} else ∅) :
    Objects es {q} (Lowering.checkAwait position problem) := by
  refine bindScopes ?_
  by_cases hd : Enclosure.deniesAwait es = true
  · rw [if_pos hd] at hf
    rw [Scopes.awaitContext_around es hd]
    exact fault hp hk hf.subset
  · rw [if_neg hd] at hf
    cases (Scopes.around es).awaitContext with
    | allowed => exact spared hp hf
    | topLevel => exact add_zero ({q} : Multiset Occurrence) ▸ irrelevant hp hf (defer position problem)
    | denied =>
        refine fault hp hk ?_
        rw [hf]
        exact Set.empty_subset _

/-- The objection to a loop over awaited values is no fault of an expression. -/
theorem checkAwait_loop (position : Position) :
    Objects es 0 (Lowering.checkAwait position .forAwaitOutsideAsync) := by
  refine bindScopes ?_
  cases (Scopes.around es).awaitContext with
  | topLevel => exact defer position .forAwaitOutsideAsync
  | _ => exact instApart

instance (position : Position) : Objects es 0 (Lowering.markModule position) :=
  zero_add (0 : Multiset Occurrence) ▸ instModule.bind fun _ => instApart

theorem checkYield (argument : Option Expression) (delegates : Bool) (span : Span) {next : Lowering α}
    (h : Objects es U next) :
    Objects es ({⟨es, use, .expression (.yield argument delegates span)⟩} + U) (do
      unless (← scopes).function.isGenerator do error span.start .yieldOutsideGenerator
      next) := by
  refine bindScopes ?_
  rw [Scopes.isGenerator_around]
  cases hg : Enclosure.inGenerator es with
  | true => exact irrelevant rfl (if_pos hg) h
  | false => exact (fault rfl rfl (if_neg (by simp [hg])).subset).bind fun _ => h

/-! ### Parameters -/

theorem isScoped_of_accessorProblem? {kind : FunctionKind} {items : List Expression} {problem : Problem}
    (h : accessorProblem? kind items = some problem) : problem.isScoped = false := by
  rcases accessorProblem?_cases h with ⟨n, rfl⟩ | ⟨n, rfl⟩ | rfl <;> rfl

/-- An objection to the parameters of an accessor, which what comes behind knows about. -/
theorem checkAccessor (outer : List Enclosure) (name : Option Identifier) (items : List Expression)
    (trailingComma : Bool) (parametersSpan : Span) (body : FunctionBody) (kind : FunctionKind)
    (isAsync isGenerator : Bool) (span : Span) {next : Bool → Lowering α}
    (h : Objects es U (next (accessorProblem? kind items).isSome)) :
    Objects es ({⟨outer, .value, .function
        (.mk name items trailingComma parametersSpan body kind isAsync isGenerator span)⟩} + U)
      (Lowering.checkAccessor kind items parametersSpan >>= next) := by
  unfold Lowering.checkAccessor
  cases ha : accessorProblem? kind items with
  | none =>
      rw [ha] at h
      refine irrelevant rfl (Set.eq_empty_of_forall_notMem fun x hx => ?_) h
      exact nomatch ha.symm.trans hx.2
  | some problem =>
      rw [ha] at h
      refine bind (p := error parametersSpan.start problem) ?_ fun _ => h
      refine fault rfl (isScoped_of_accessorProblem? ha) fun x hx => ?_
      obtain ⟨hs, hx⟩ := hx
      exact Prod.ext hs (Option.some.inj (hx.symm.trans ha))

/-- An objection to a rest parameter that is not the last one, or that a comma follows. -/
theorem restParameter (place : ParameterPlace) (argument : Expression) (span : Span) {next : Lowering α}
    (h : Objects es U next) :
    Objects es ({⟨es, .parameter place, .expression (.spread argument span)⟩} + U) (do
      if !place.isLast then
        if !place.objected then error span.start .restNotLast
      else if place.trailingComma then error span.start .commaAfterRest
      next) := by
  obtain ⟨isLast, trailingComma, objected⟩ := place
  cases isLast with
  | false =>
      cases objected with
      | true => exact irrelevant rfl rfl h
      | false => exact (fault rfl rfl (subset_refl _)).bind fun _ => h
  | true =>
      cases trailingComma with
      | false => exact irrelevant rfl (by cases objected <;> rfl) h
      | true =>
          refine (fault rfl rfl ?_).bind fun _ => h
          cases objected with
          | true => exact Set.empty_subset _
          | false => exact subset_refl _

/-- An objection to each `yield` and `await` that the default bears. -/
theorem checkDefault (place : ParameterPlace) (left : Expression) {right : Expression} (span : Span) {n : Node}
    (h : Bears ⟨es, .value, part right⟩ n) :
    Objects es {⟨es, .parameter place, .expression (.assignment .assign left right span)⟩}
      (Lowering.checkDefault n) := by
  have hrun (s : State) : Lowering.checkDefault n s = ((), { s with
      journal := s.journal.notes (n.suspensions.map fun x => .problem x.1.start x.2) }) :=
    run_forM_error _ _ n.suspensions s
  refine ⟨fun s hs => ⟨n.suspensions.map fun x => .problem x.1.start x.2, fun j => ?_, ?_, ?_, ?_⟩⟩
  · rw [hrun, hrun]
  · rw [hrun]
    exact hs
  · have hnone : ∀ r ∈ n.suspensions.map (fun x => Remark.problem x.1.start x.2),
        r.ofKind? Problem.isScoped = none := by
      intro r hr
      obtain ⟨x, hx, rfl⟩ := List.mem_map.mp hr
      apply Remark.ofKind?_eq_none
      show x.2.isScoped = false
      rcases Apart.problem_of_suspensions n x hx with h | h <;> rw [h]
    rw [List.filterMap_eq_nil_iff.mpr hnone]
    rfl
  · intro u hu x hx
    rw [Multiset.mem_singleton.mp hu] at hx
    obtain ⟨y, hy, rfl⟩ := hx
    exact List.mem_map_of_mem (h y hy)

/-! ## Rules with parts -/

instance (s : Statement) {lowered : Lowering Node} [Objects es U lowered] : Objects es U (bodyNode s lowered) := by
  unfold bodyNode
  have hlast (node : Node) : Apart Problem.isScoped (match s with
      | .block _ => (pure node : Lowering Node)
      | _ => pure (.branch .block s.span [node])) := by
    split <;> infer_instance
  infer_instance

/-- Whether a shorthand may have its name is no question about scopes. -/
theorem shorthand (place : ShorthandPlace) {position : Position} {name : String} (h : Objects es U p) :
    Objects es U (do
      if ← isReservedShorthand name then error position (place.problem name)
      p) := by
  rw [Composed.shorthand_eq]
  exact bindApart (.look _) fun _ => bindApart (.remark _ rfl) fun _ => h

instance (isAwait : Bool) (span : Span) : Objects es 0 (valueLoopKind isAwait span) := by
  cases isAwait with
  | false =>
      show Objects es 0 (do
        record .forOf span.start
        pure NodeKind.forOf)
      infer_instance
  | true =>
      have hc : Objects es 0 (Lowering.checkAwait span.start .forAwaitOutsideAsync) := checkAwait_loop span.start
      show Objects es 0 (do
        record .forAwaitOf span.start
        Lowering.checkAwait span.start .forAwaitOutsideAsync
        pure NodeKind.forAwaitOf)
      infer_instance

instance (d : ImportDeclaration) : Objects es 0 (importNode d) := by
  unfold importNode
  dsimp only
  cases d.defaultName <;> cases d.bindings <;> infer_instance

/-- A key that is not computed holds nothing. -/
theorem plainKey {key : PropertyKey} (h : key.isComputed = false) [hp : Objects es V p] :
    Objects es (census ⟨es, use, .key key⟩ + V) p := by
  refine meets (U := V) rfl rfl ?_
  cases key with
  | computed e s => cases h
  | _ => exact (zero_add V).symm

theorem plainKey_only {key : PropertyKey} (h : key.isComputed = false) [Apart Problem.isScoped p] :
    Objects es (census ⟨es, use, .key key⟩) p :=
  add_zero (census _) ▸ plainKey h

section Members

variable {key : PropertyKey} {loweredKey loweredFunction : Lowering Node}

theorem classKeyNode (h : Objects es (census ⟨es, .value, .key key⟩) loweredKey) :
    Objects es (census ⟨es, .value, .key key⟩) (Lowering.classKeyNode key loweredKey) := by
  cases key with
  | computed e s =>
      dsimp only [Lowering.classKeyNode]
      infer_instance
  | _ =>
      dsimp only [Lowering.classKeyNode]
      exact plainKey_only rfl

theorem objectMethodNode (h : Objects es (census ⟨es, .value, .key key⟩) loweredKey)
    (hf : Objects es V loweredFunction) (kind : FunctionKind) (span : Span) :
    Objects es (census ⟨es, .value, .key key⟩ + V)
      (Lowering.objectMethodNode key kind span loweredKey loweredFunction) := by
  cases key with
  | computed e s =>
      dsimp only [Lowering.objectMethodNode]
      infer_instance
  | _ =>
      dsimp only [Lowering.objectMethodNode]
      exact plainKey rfl

theorem classMethodNode (h : Objects es (census ⟨es, .value, .key key⟩) loweredKey)
    (hf : Objects es V loweredFunction) (kind : FunctionKind) (span : Span) :
    Objects es (census ⟨es, .value, .key key⟩ + V)
      (Lowering.classMethodNode key kind span loweredKey loweredFunction) := by
  have hc := classKeyNode h
  unfold Lowering.classMethodNode
  split
  · exact plainKey rfl
  · exact plainKey rfl
  · infer_instance

theorem classFieldNode (h : Objects es (census ⟨es, .value, .key key⟩) loweredKey) (span : Span) :
    Objects es (census ⟨es, .value, .key key⟩) (Lowering.classFieldNode key span loweredKey) := by
  have hc := classKeyNode h
  unfold Lowering.classFieldNode
  split
  · exact plainKey_only rfl
  · exact plainKey_only rfl
  · infer_instance

end Members

/-- A construct that starts with a key which is not computed. -/
theorem meets_plainKey {key : PropertyKey} {rest : List Occurrence} (hp : q.problem? = none) (hf : q.faults = ∅)
    (hi : q.inner = ⟨es, use, .key key⟩ :: rest) (hk : key.isComputed = false) [h : Objects es U p]
    (e : U = censusAll rest + V) : Objects es (q.census + V) p := by
  have h' : Objects es (census ⟨es, use, .key key⟩ + U) p := plainKey hk
  exact meets hp hf (by rw [hi, censusAll_cons, e, add_assoc])

end Objects

end Lowering

end EcmaScript
