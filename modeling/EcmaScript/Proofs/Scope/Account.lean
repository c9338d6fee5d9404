import EcmaScript.Proofs.Lowering.Apart
import EcmaScript.Proofs.Scope.Occurrence
import Mathlib.Algebra.Order.Group.Multiset

/-!
# What a step of lowering objects to

A step of lowering that has met the occurrences `U` has objected to each jump, label and private name among them
that has a problem, once for each of them, and to no other. It has objected to their faults too, perhaps among
others (`Account`). `Objects es U p` says this of a step `p` inside the enclosures `es`: the tables that the step
starts with are those of `es`, and it leaves them as they are.

The occurrences are found out together with the fact: one after the other for steps in sequence, and none for a
rule that objects to other things.

## Contents

* `Problem.isScoped`, `Occurrence.problem?`: the problems that the enclosures of a place tell.
* `Account`, `Objects`: what is remarked about the occurrences that a step has met.
* `Objects.bind`: one step behind another.
* `Objects.object`, `Objects.error`: the rules that object.
* `Objects.meets`: a construct, by the occurrences right below it.
-/

namespace EcmaScript

namespace Problem

/-- Problems with jumps and labels. -/
@[reducible] def isJump : Problem → Bool
  | breakOutsideLoop | continueOutsideLoop | continueLabelNotLoop | undefinedLabel _ | duplicateLabel _ => true
  | _ => false

/-- Problems with private names that no class body declares. -/
@[reducible] def isPrivate : Problem → Bool
  | privateNameMisplaced | privateFieldUndeclared | privateMethodUndeclared => true
  | _ => false

/-- The problems that the enclosures of a place tell. -/
@[reducible] def isScoped : Problem → Bool
  | breakOutsideLoop | continueOutsideLoop | continueLabelNotLoop | undefinedLabel _ | duplicateLabel _
  | privateNameMisplaced | privateFieldUndeclared | privateMethodUndeclared => true
  | _ => false

theorem isScoped_of_isJump {p : Problem} (h : p.isJump = true) : p.isScoped = true := by
  cases p <;> first | rfl | cases h

theorem isScoped_of_isPrivate {p : Problem} (h : p.isPrivate = true) : p.isScoped = true := by
  cases p <;> first | rfl | cases h

end Problem

/-- The place and the problem of a remark, if the problem is of the kind. -/
def Remark.ofKind? (K : Problem → Bool) : Remark → Option (Position × Problem)
  | .problem position p => if K p then some (position, p) else none
  | _ => none

theorem Remark.ofKind?_eq_none {K : Problem → Bool} {r : Remark} (h : r.concerns K = false) :
    r.ofKind? K = none := by
  cases r with
  | problem position p => exact if_neg (Bool.eq_false_iff.mp h)
  | _ => rfl

namespace Occurrence

theorem isJump_of_jumpProblem? {q : Occurrence} {x : Position × Problem} (h : q.jumpProblem? = some x) :
    x.2.isJump = true := by
  unfold jumpProblem? at h
  split at h <;> (try split at h) <;> (try split at h) <;> cases h <;> rfl

theorem isPrivate_of_unresolved? {es : List Enclosure} {name : Identifier} {undeclared : Problem}
    {x : Position × Problem} (hu : undeclared.isPrivate = true) (h : unresolved? es name undeclared = some x) :
    x.2.isPrivate = true := by
  unfold unresolved? at h
  split at h
  · cases h
    rfl
  · split at h
    · cases h
    · cases h
      exact hu

theorem isPrivate_of_privateProblem? {q : Occurrence} {x : Position × Problem} (h : q.privateProblem? = some x) :
    x.2.isPrivate = true := by
  unfold privateProblem? at h
  split at h
  · refine isPrivate_of_unresolved? ?_ h
    split <;> rfl
  · split at h
    · exact isPrivate_of_unresolved? rfl h
    · cases h
      rfl
  · cases h

/-- What is wrong with a jump, a label or a private name. -/
def problem? (q : Occurrence) : Option (Position × Problem) := q.jumpProblem?.or q.privateProblem?

theorem isScoped_of_problem? {q : Occurrence} {x : Position × Problem} (h : q.problem? = some x) :
    x.2.isScoped = true := by
  rcases Option.or_eq_some_iff.mp h with hj | ⟨-, hp⟩
  · exact Problem.isScoped_of_isJump (isJump_of_jumpProblem? hj)
  · exact Problem.isScoped_of_isPrivate (isPrivate_of_privateProblem? hp)

end Occurrence

namespace Lowering

-- An instance for a rule is as large as the rule.
set_option synthInstance.maxSize 2000

/-! ## The account of a step -/

/-- The remarks `rs` are what is to be objected to in the occurrences `U`. -/
structure Objections (U : Multiset Occurrence) (rs : List Remark) : Prop where
  exact : (rs.filterMap (Remark.ofKind? Problem.isScoped) : List (Position × Problem)) =
    U.filterMap Occurrence.problem?
  told : ∀ u ∈ U, ∀ x ∈ u.faults, Remark.problem x.1 x.2 ∈ rs

namespace Objections

variable {U V : Multiset Occurrence} {rs qs : List Remark}

/-- Remarks about other things. -/
theorem nothing (h : ∀ r ∈ rs, r.concerns Problem.isScoped = false) : Objections 0 rs := by
  refine ⟨?_, fun u hu => absurd hu (Multiset.notMem_zero u)⟩
  rw [List.filterMap_eq_nil_iff.mpr fun r hr => Remark.ofKind?_eq_none (h r hr)]
  rfl

theorem append (h : Objections U rs) (h' : Objections V qs) : Objections (U + V) (rs ++ qs) := by
  constructor
  · rw [List.filterMap_append, ← Multiset.coe_add, h.exact, h'.exact, Multiset.filterMap_add]
  · intro u hu x hx
    rcases Multiset.mem_add.mp hu with hu | hu
    · exact List.mem_append_left _ (h.told u hu x hx)
    · exact List.mem_append_right _ (h'.told u hu x hx)

/-- An occurrence with nothing to object to may be among them. -/
theorem irrelevant {q : Occurrence} (hp : q.problem? = none) (hf : q.faults = ∅) (h : Objections U rs) :
    Objections ({q} + U) rs := by
  constructor
  · rw [Multiset.singleton_add, Multiset.filterMap_cons_none q U hp]
    exact h.exact
  · intro u hu x hx
    rcases Multiset.mem_add.mp hu with hu | hu
    · rw [Multiset.mem_singleton.mp hu, hf] at hx
      exact hx.elim
    · exact h.told u hu x hx

end Objections

/-- Inside the enclosures `es` the step objects to the occurrences `U`. -/
class Objects (es : List Enclosure) (U : outParam (Multiset Occurrence)) {α : Type} (p : Lowering α) : Prop where
  run : ∀ s : State, s.scopes = .around es → ∃ rs : List Remark,
    (∀ j, p { s with journal := j } = ((p s).1, { (p s).2 with journal := j.notes rs })) ∧
      (p s).2.scopes = .around es ∧ Objections U rs

namespace Objects

variable {α β : Type} {es : List Enclosure} {U V : Multiset Occurrence} {p : Lowering α} {q : Occurrence}

/-- A rule that objects to other things. -/
instance (priority := high) instApart [h : Apart Problem.isScoped p] : Objects es 0 p := by
  refine ⟨fun s hs => ?_⟩
  obtain ⟨rs, hapart, hrun⟩ := h.trace s
  have hself : (p s).2 = { s with journal := s.journal.notes rs } := congrArg Prod.snd (hrun s.journal)
  refine ⟨rs, fun j => by rw [hrun j, hself], ?_, .nothing hapart⟩
  rw [hself]
  exact hs

/-- Notes that are no remarks change nothing. -/
theorem instModule : Objects es 0 (modify fun s : State => { s with isModule := true }) :=
  ⟨fun _ hs => ⟨[], fun _ => rfl, hs, .nothing nofun⟩⟩

theorem defer (position : Position) (problem : Problem) :
    Objects es 0 (modify fun s : State => { s with pendingAwaits := (position, problem) :: s.pendingAwaits }) :=
  ⟨fun _ hs => ⟨[], fun _ => rfl, hs, .nothing nofun⟩⟩

/-! ## Combinators -/

/-- Behind a step comes one that knows its value. -/
theorem bindValue {f : α → Lowering β} (hp : Objects es U p) (hf : ∀ s, Objects es V (f (p s).1)) :
    Objects es (U + V) (p >>= f) := by
  refine ⟨fun s hs => ?_⟩
  obtain ⟨rs, hrun, hscopes, hu⟩ := hp.run s hs
  obtain ⟨qs, hrun', hscopes', hv⟩ := (hf s).run (p s).2 hscopes
  refine ⟨rs ++ qs, fun j => ?_, hscopes', hu.append hv⟩
  show f (p { s with journal := j }).1 (p { s with journal := j }).2 = _
  rw [hrun j]
  exact (hrun' (j.notes rs)).trans (by rw [Journal.notes_notes]; rfl)

theorem bind {f : α → Lowering β} (hp : Objects es U p) (hf : ∀ a, Objects es V (f a)) :
    Objects es (U + V) (p >>= f) := bindValue hp fun _ => hf _

-- Of two steps both may meet occurrences; the instances behind are tried before, and leave out what is empty.

instance (priority := low) instBind {f : α → Lowering β} [hp : Objects es U p] [hf : ∀ a, Objects es V (f a)] :
    Objects es (U + V) (p >>= f) := bind hp hf

instance instBindLast {f : α → Lowering β} [hp : Objects es U p] [hf : ∀ a, Apart Problem.isScoped (f a)] :
    Objects es U (p >>= f) := add_zero U ▸ bind hp fun _ => instApart

theorem bindApart {f : α → Lowering β} (hp : Apart Problem.isScoped p) (hf : ∀ a, Objects es V (f a)) :
    Objects es V (p >>= f) := zero_add V ▸ bind instApart hf

instance instBindApart {f : α → Lowering β} [hp : Apart Problem.isScoped p] [hf : ∀ a, Objects es V (f a)] :
    Objects es V (p >>= f) := bindApart hp hf

instance instMap {f : α → β} [h : Objects es U p] : Objects es U (f <$> p) :=
  inferInstanceAs (Objects es U (p >>= fun a => pure (f a)))

instance instIte {P : Prop} [Decidable P] {p' : Lowering α} [hp : Objects es U p] [hp' : Objects es U p'] :
    Objects es U (if P then p else p') := by
  split
  · exact hp
  · exact hp'

/-- The occurrences may be told in another way. -/
theorem of_eq [h : Objects es U p] (e : U = V) : Objects es V p := e ▸ h

/-- Inside the enclosures the step may be written in another way. -/
theorem congr {p' : Lowering α} (h : Objects es U p') (e : ∀ s : State, s.scopes = .around es → p s = p' s) :
    Objects es U p := by
  refine ⟨fun s hs => ?_⟩
  rw [e s hs]
  obtain ⟨rs, hrun, hrest⟩ := h.run s hs
  exact ⟨rs, fun j => (e { s with journal := j } hs).trans (hrun j), hrest⟩

theorem irrelevant (hp : q.problem? = none) (hf : q.faults = ∅) (h : Objects es U p) :
    Objects es ({q} + U) p := by
  refine ⟨fun s hs => ?_⟩
  obtain ⟨rs, hrun, hscopes, hu⟩ := h.run s hs
  exact ⟨rs, hrun, hscopes, hu.irrelevant hp hf⟩

/-- A construct with nothing to object to, by the occurrences right below it. -/
theorem meets (hp : q.problem? = none) (hf : q.faults = ∅) [h : Objects es U p]
    (e : U = Occurrence.censusAll q.inner + V) : Objects es (q.census + V) p := by
  rw [Occurrence.census_eq, add_assoc, ← e]
  exact irrelevant hp hf h

theorem meets_only (hp : q.problem? = none) (hf : q.faults = ∅) [h : Objects es U p]
    (e : U = Occurrence.censusAll q.inner) : Objects es q.census p := by
  rw [Occurrence.census_eq, ← e]
  exact irrelevant hp hf h

/-! ## Rules that object -/

/-- Objects to what is wrong, if something is. -/
def object : Option (Position × Problem) → Lowering Unit
  | some x => error x.1 x.2
  | none => pure ()

/-- What the enclosures tell about an occurrence. -/
theorem object_problem? (hf : q.faults = ∅) : Objects es {q} (object q.problem?) := by
  have htold (rs : List Remark) : ∀ u ∈ ({q} : Multiset Occurrence), ∀ x ∈ u.faults, Remark.problem x.1 x.2 ∈ rs := by
    intro u hu x hx
    rw [Multiset.mem_singleton.mp hu, hf] at hx
    exact hx.elim
  refine ⟨fun s hs => ?_⟩
  cases h : q.problem? with
  | none =>
      refine ⟨[], fun _ => rfl, hs, ?_, htold _⟩
      exact (Multiset.filterMap_cons_none q 0 h).symm
  | some x =>
      refine ⟨[.problem x.1 x.2], fun _ => rfl, hs, ?_, htold _⟩
      rw [← Multiset.cons_zero, Multiset.filterMap_cons_some _ q 0 h]
      simp [Remark.ofKind?, Occurrence.isScoped_of_problem? h]

/-- A fault. -/
theorem fault {position : Position} {problem : Problem} (hp : q.problem? = none) (hk : problem.isScoped = false)
    (hf : q.faults ⊆ {(position, problem)}) : Objects es {q} (error position problem) := by
  refine ⟨fun s hs => ⟨[.problem position problem], fun _ => rfl, hs, ?_, ?_⟩⟩
  · rw [← Multiset.cons_zero, Multiset.filterMap_cons_none q 0 hp]
    simp [Remark.ofKind?, hk]
  · intro u hu x hx
    rw [Multiset.mem_singleton.mp hu] at hx
    rw [Set.mem_singleton_iff.mp (hf hx)]
    exact List.mem_singleton_self _

/-- Nothing to object to. -/
theorem spared {a : α} (hp : q.problem? = none) (hf : q.faults = ∅) : Objects es {q} (pure a : Lowering α) :=
  add_zero ({q} : Multiset Occurrence) ▸ irrelevant hp hf instApart

/-! ## Scopes -/

/-- A scope whose tables are those inside one more enclosure. -/
theorem between (e : Enclosure) {enter exit : Scopes → Scopes} (h : ∀ s, exit (enter s) = s)
    (hc : enter (.around es) = .around (e :: es)) [hp : Objects (e :: es) U p] :
    Objects es U (between enter exit p) := by
  refine ⟨fun s hs => ?_⟩
  obtain ⟨rs, hrun, hscopes, hu⟩ := hp.run { s with scopes := enter s.scopes } (hs ▸ hc)
  have run (s : State) : Lowering.between enter exit p s =
      ((p { s with scopes := enter s.scopes }).1,
        { (p { s with scopes := enter s.scopes }).2 with
          scopes := exit (p { s with scopes := enter s.scopes }).2.scopes }) := rfl
  refine ⟨rs, fun j => ?_, ?_, hu⟩
  · have hj : p { s with journal := j, scopes := enter s.scopes } = _ := hrun j
    rw [run, run, hj]
  · rw [run]
    show exit _ = _
    rw [hscopes, ← hc, h]

instance instInsideFunction (boundary : Boundary) (isGenerator isAsync : Bool)
    [Objects (.boundary boundary isGenerator isAsync :: es) U p] :
    Objects es U (insideFunction boundary isGenerator isAsync p) :=
  between (.boundary boundary isGenerator isAsync)
    (Scopes.exitFunction_enterFunction boundary isGenerator isAsync) rfl

instance instInsideClass (members : List ClassMember) [Objects (.classBody members :: es) U p] :
    Objects es U (insideClass (privateNames members) p) :=
  between (.classBody members) (Scopes.exitClass_enterClass (privateNames members)) rfl

instance instInsideLoop [Objects (.loopBody :: es) U p] : Objects es U (insideLoop p) :=
  between .loopBody Scopes.exitLoop_enterLoop rfl

instance instInsideSwitch [Objects (.switchBody :: es) U p] : Objects es U (insideSwitch p) :=
  between .switchBody Scopes.exitSwitch_enterSwitch rfl

end Objects

end Lowering

end EcmaScript
