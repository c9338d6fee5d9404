import EcmaScript.Proofs.Lowering.Tree

/-!
# Lowering leaves the scopes as it found them

Scopes are opened and closed all over the rules: loops, switches, labels, functions, static blocks, fields and
class bodies. Closing is forgiving. To leave the script is to do nothing, and a depth that is zero already stays
zero, so a closing too many would not be seen where it happens.

`Runs` says how a step runs from its parts, and lists all closings on the way with the scopes that each of them
finds. It asks nothing of these scopes. By induction on the run, the scopes are in the end what they were
(`Runs.scopes_eq`), and each closing finds what its opening made (`Runs.isOpen`), so it has something to close. As
every rule is composed, every step of lowering has such a run (`Composed.exists_runs`).

## Contents

* `Opening.isOpen`: whether there is something to close.
* `Closing`, `Runs`: the run of a step with its closings.
* `restores_scopes`: the result.
-/

namespace EcmaScript

namespace Lowering

/-! ## Closing -/

/-- Whether there is something to close: a function that is not the script itself, a class, a depth above zero,
the label. -/
def Opening.isOpen (s : Scopes) : Opening → Bool
  | function .. => !s.outer.isEmpty
  | classBody _ => !s.classes.isEmpty
  | loopBody => s.inLoop && s.inBreakable
  | switchBody => s.inBreakable
  | labelled label => (s.findLabel? label.name).isSome

/-- Behind an opening there is something to close. -/
theorem Opening.isOpen_enter (o : Opening) (s : Scopes) : o.isOpen (o.enter s) = true := by
  cases o with
  | function => rfl
  | classBody => rfl
  | loopBody => simp [isOpen, enter, Scopes.enterLoop, Scopes.onFunction, Scopes.inLoop, Scopes.inBreakable]
  | switchBody => simp [isOpen, enter, Scopes.enterSwitch, Scopes.onFunction, Scopes.inBreakable]
  | labelled => simp [isOpen, enter, Scopes.pushLabel, Scopes.onFunction, Scopes.findLabel?]

/-- A scope that is closed, with all scopes that the closing finds. -/
structure Closing where
  opening : Opening
  found : Scopes

/-! ## Runs -/

/-- The step leads from one state to another with a value, and closes scopes in this order on the way. -/
inductive Runs : {α : Type} → Lowering α → State → α → State → List Closing → Prop where
  | pure {α : Type} (a : α) (s : State) : Runs (pure a) s a s []
  | bind {α β : Type} {p : Lowering α} {f : α → Lowering β} {a : α} {b : β} {s t u : State} {cs ds : List Closing} :
      Runs p s a t cs → Runs (f a) t b u ds → Runs (p >>= f) s b u (cs ++ ds)
  | look {α : Type} (f : View → α) (s : State) : Runs (look f) s (f s.view) s []
  | remark (r : Remark) (s : State) : Runs (remark r) s () { s with journal := s.journal.notes [r] } []
  | setModule (s : State) :
      Runs (modify fun s : State => { s with isModule := true }) s () { s with isModule := true } []
  | defer (position : Position) (problem : Problem) (s : State) :
      Runs (modify fun s : State => { s with pendingAwaits := (position, problem) :: s.pendingAwaits }) s ()
        { s with pendingAwaits := (position, problem) :: s.pendingAwaits } []
  | between {α : Type} {p : Lowering α} {a : α} {s t : State} {cs : List Closing} (o : Opening) :
      Runs p { s with scopes := o.enter s.scopes } a t cs →
        Runs (between o.enter o.exit p) s a { t with scopes := o.exit t.scopes } (cs ++ [⟨o, t.scopes⟩])

namespace Runs

variable {α : Type} {p : Lowering α} {a : α} {s t : State} {cs : List Closing}

/-- The run of a step is what the step does. -/
theorem eq (h : Runs p s a t cs) : p s = (a, t) := by
  induction h with
  | pure | look | remark | setModule | defer => rfl
  | @bind α β p f a b s t u cs ds _ _ ihp ihf =>
      show f (p s).1 (p s).2 = _
      rw [ihp]
      exact ihf
  | @between α p a s t cs o _ ih =>
      show ((p { s with scopes := o.enter s.scopes }).1,
        { (p { s with scopes := o.enter s.scopes }).2 with
          scopes := o.exit (p { s with scopes := o.enter s.scopes }).2.scopes }) = _
      rw [ih]

/-- **A run restores the scopes.** -/
theorem scopes_eq (h : Runs p s a t cs) : t.scopes = s.scopes := by
  induction h with
  | pure | look | remark | setModule | defer => rfl
  | bind _ _ ihp ihf => exact ihf.trans ihp
  | @between α p a s t cs o _ ih =>
      show o.exit t.scopes = s.scopes
      rw [ih]
      exact o.exit_enter s.scopes

/-- **Every closing has something to close**: it finds the scopes as its opening made them, for what runs between
the two restores them. -/
theorem isOpen (h : Runs p s a t cs) : ∀ c ∈ cs, c.opening.isOpen c.found = true := by
  induction h with
  | pure | look | remark | setModule | defer => exact List.forall_mem_nil _
  | bind _ _ ihp ihf => exact List.forall_mem_append.mpr ⟨ihp, ihf⟩
  | @between α p a s t cs o hp ih =>
      refine List.forall_mem_append.mpr ⟨ih, List.forall_mem_singleton.mpr ?_⟩
      show o.isOpen t.scopes = true
      rw [hp.scopes_eq]
      exact o.isOpen_enter s.scopes

end Runs

/-- **A composed step has a run** from every state. -/
theorem Composed.exists_runs {α : Type} {p : Lowering α} (h : Composed p) (s : State) :
    ∃ cs, Runs p s (p s).1 (p s).2 cs := by
  induction h generalizing s with
  | pure a => exact ⟨_, .pure a s⟩
  | look f => exact ⟨_, .look f s⟩
  | remark r => exact ⟨_, .remark r s⟩
  | setModule => exact ⟨_, .setModule s⟩
  | defer position problem => exact ⟨_, .defer position problem s⟩
  | bind _ _ ihp ihf =>
      obtain ⟨cs, hp⟩ := ihp s
      obtain ⟨ds, hf⟩ := ihf _ _
      exact ⟨_, .bind hp hf⟩
  | between o _ ih =>
      obtain ⟨cs, hp⟩ := ih { s with scopes := o.enter s.scopes }
      exact ⟨_, .between o hp⟩

/-! ## The result -/

/-- From the state the step restores the scopes. It has a run, and whichever way its run is put together, it is what
the step does and closes nothing that is not open. -/
structure Restores {α : Type} (p : Lowering α) (s : State) : Prop where
  scopes : (p s).2.scopes = s.scopes
  exists_runs : ∃ cs, Runs p s (p s).1 (p s).2 cs
  closings : ∀ a t cs, Runs p s a t cs → p s = (a, t) ∧ ∀ c ∈ cs, c.opening.isOpen c.found = true

theorem Composed.restores {α : Type} {p : Lowering α} (h : Composed p) (s : State) : Restores p s := by
  obtain ⟨cs, hrun⟩ := h.exists_runs s
  exact ⟨hrun.scopes_eq, ⟨cs, hrun⟩, fun _ _ _ hother => ⟨hother.eq, hother.isOpen⟩⟩

/-- **Lowering restores the scopes.** From any state, with any functions, labels, loops and classes around, the
lowering of a statement, of an expression in any role (a value, a target of a declaration or of an assignment, an
entry or the rest of a pattern, a parameter), of a function, of a class or of one of its members leaves all scopes
exactly as they were. On its way it leaves no function where only the script is left, counts no depth down from
zero, and takes away no class or label that is not there. -/
theorem restores_scopes (s : State) :
    (∀ statement, Restores (Lowering.statement statement) s) ∧
      (∀ role expression, Restores (Lowering.expression [] role expression) s) ∧
      (∀ function, Restores (Lowering.function function) s) ∧
      (∀ definition, Restores (classDefinition definition) s) ∧
      ∀ member, Restores (classMember member) s :=
  ⟨fun x => (Composed.statement x).restores s,
    fun role x => (Composed.expression Composed.pending_nil role x).restores s,
    fun x => (Composed.function x).restores s,
    fun x => (Composed.classDefinition x).restores s,
    fun x => (Composed.classMember x).restores s⟩

end Lowering

end EcmaScript
