import EcmaScript.Lowering.Tree
import EcmaScript.Proofs.Remarks

/-!
# What lowering is made of

A step of lowering can look at the scopes around it, make a remark, note that the source is a module,
put an objection to `await` off, and run a part of itself between opening and closing a scope. Like a
production it never looks at the journal; the one question it asks about the edition, whether a
shorthand may have its name, is a remark that the edition answers (`Remark.shorthand`).

`Composed` is the class of these steps, and its instances close it under the combinators. The result is
`Composed.trace`: a step gives the same node and makes the same remarks under every journal.

## Contents

* `Opening`: what opens a scope, and how the scope is closed.
* `Composed`: the class, its closure under the combinators, and what it says.
-/

namespace EcmaScript

namespace Lowering

/-- What a step of lowering can see of its state. -/
structure View where
  scopes : Scopes
  lineMap : LineMap
  strict : Bool
  isModule : Bool
  pendingAwaits : List (Position × Problem)

def State.view (s : State) : View := ⟨s.scopes, s.lineMap, s.strict, s.isModule, s.pendingAwaits⟩

/-- Reads something off the state. -/
def look {α : Type} (f : View → α) : Lowering α := fun s => (f s.view, s)

/-- Makes a remark. -/
def remark (r : Remark) : Lowering Unit := note (·.notes [r])

/-- To record a feature is a remark. -/
theorem record_eq_remark (f : Feature) (position : Position) :
    record f position = remark (.feature f position) := by
  funext s
  show ((), { s with journal := s.journal.record f position }) = _
  rw [Journal.record_eq]
  rfl

/-- Objections to all items of a list. -/
theorem run_forM_error {α : Type} (place : α → Position) (problem : α → Problem) (xs : List α) (s : State) :
    (xs.forM fun x => error (place x) (problem x)) s =
      ((), { s with journal := s.journal.notes (xs.map fun x => .problem (place x) (problem x)) }) := by
  induction xs generalizing s with
  | nil => rfl
  | cons x xs ih =>
      refine (ih { s with journal := s.journal.notes [.problem (place x) (problem x)] }).trans ?_
      rw [Journal.notes_notes]
      rfl

/-! ## What opens a scope -/

/-- A construct that opens a scope. -/
inductive Opening where
  | function (boundary : Boundary) (isGenerator isAsync : Bool)
  | classBody (names : List String)
  | loopBody
  | switchBody
  | labelled (label : Label)
  deriving DecidableEq, Repr

namespace Opening

def enter : Opening → Scopes → Scopes
  | function boundary isGenerator isAsync => .enterFunction boundary isGenerator isAsync
  | classBody names => .enterClass names
  | loopBody => .enterLoop
  | switchBody => .enterSwitch
  | labelled label => .pushLabel label

def exit : Opening → Scopes → Scopes
  | function .. => .exitFunction
  | classBody _ => .exitClass
  | loopBody => .exitLoop
  | switchBody => .exitSwitch
  | labelled label => .popLabel label.name

/-- Closing undoes opening. -/
@[simp] theorem exit_enter (o : Opening) (s : Scopes) : o.exit (o.enter s) = s := by
  cases o <;> simp [enter, exit]

end Opening

/-! ## The class -/

/-- The steps that are put together from remarks and scopes. -/
class inductive Composed : {α : Type} → Lowering α → Prop where
  | pure {α : Type} (a : α) : Composed (pure a : Lowering α)
  | bind {α β : Type} {p : Lowering α} {f : α → Lowering β} :
      Composed p → (∀ a, Composed (f a)) → Composed (p >>= f)
  | look {α : Type} (f : View → α) : Composed (look f)
  | remark (r : Remark) : Composed (remark r)
  | setModule : Composed (modify fun s : State => { s with isModule := true })
  | defer (position : Position) (problem : Problem) :
      Composed (modify fun s : State =>
        { s with pendingAwaits := (position, problem) :: s.pendingAwaits })
  | between {α : Type} {p : Lowering α} (o : Opening) : Composed p → Composed (between o.enter o.exit p)

namespace Composed

attribute [instance] Composed.pure Composed.look Composed.remark Composed.setModule Composed.defer

variable {α β : Type} {p : Lowering α}

/-- **A step of lowering does the same under every journal**, and adds the same remarks to it. -/
theorem trace (h : Composed p) (s : State) :
    ∃ rs, ∀ j, p { s with journal := j } = ((p s).1, { (p s).2 with journal := j.notes rs }) := by
  induction h generalizing s with
  | pure a => exact ⟨[], fun _ => rfl⟩
  | look f => exact ⟨[], fun _ => rfl⟩
  | remark r => exact ⟨[r], fun _ => rfl⟩
  | setModule => exact ⟨[], fun _ => rfl⟩
  | defer position problem => exact ⟨[], fun _ => rfl⟩
  | @bind α β p f _ _ ihp ihf =>
      obtain ⟨rs, hp⟩ := ihp s
      obtain ⟨qs, hf⟩ := ihf (p s).1 (p s).2
      refine ⟨rs ++ qs, fun j => ?_⟩
      show f (p { s with journal := j }).1 (p { s with journal := j }).2 = _
      rw [hp j]
      exact (hf (j.notes rs)).trans (by rw [Journal.notes_notes]; rfl)
  | @between α p o _ ih =>
      obtain ⟨rs, hp⟩ := ih { s with scopes := o.enter s.scopes }
      have run (s : State) : Lowering.between o.enter o.exit p s =
          ((p { s with scopes := o.enter s.scopes }).1,
            { (p { s with scopes := o.enter s.scopes }).2 with
              scopes := o.exit (p { s with scopes := o.enter s.scopes }).2.scopes }) := rfl
      refine ⟨rs, fun j => ?_⟩
      have hj : p { s with journal := j, scopes := o.enter s.scopes } = _ := hp j
      rw [run, run, hj]

/-! ## Combinators -/

instance instBind {f : α → Lowering β} [hp : Composed p] [hf : ∀ a, Composed (f a)] :
    Composed (p >>= f) := bind hp hf

instance instMap {f : α → β} [h : Composed p] : Composed (f <$> p) :=
  inferInstanceAs (Composed (p >>= fun a => Pure.pure (f a)))

instance instIte {c : Prop} [Decidable c] {q : Lowering α} [hp : Composed p] [hq : Composed q] :
    Composed (if c then p else q) := by
  split
  · exact hp
  · exact hq

instance instForM {f : β → Lowering PUnit} [hf : ∀ b, Composed (f b)] (bs : List β) :
    Composed (bs.forM f) := by
  induction bs with
  | nil => exact pure _
  | cons b bs ih => exact bind (hf b) fun _ => ih

instance instMapM {f : β → Lowering α} [hf : ∀ b, Composed (f b)] (bs : List β) :
    Composed (bs.mapM f) := by
  induction bs with
  | nil => exact pure _
  | cons b bs ih =>
      rw [List.mapM_cons]
      infer_instance

/-! ## Remarks -/

instance (f : Feature) (position : Position) : Composed (record f position) := by
  rw [record_eq_remark]
  exact remark _

instance (position : Position) (q : Problem) : Composed (error position q) :=
  remark (.problem position q)

instance (d : LexicalDiagnostic) : Composed (lexical d) := remark (.lexical d)

instance (position : Position) (name : String) :
    Composed (warning position (.duplicateParameter name)) := remark (.duplicate position name)

instance : Composed scopes := look (·.scopes)

instance (offset : Nat) : Composed (emptySpanAt offset) :=
  look fun v => Span.emptyAt (v.lineMap.position offset)

instance (position : Position) : Composed (markModule position) := by
  unfold markModule
  infer_instance

instance (position : Position) (q : Problem) : Composed (checkAwait position q) := by
  unfold checkAwait
  refine bind inferInstance fun s => ?_
  split <;> infer_instance

/-- A shorthand is one remark, which the edition of the journal judges. -/
theorem shorthand_eq (place : ShorthandPlace) (position : Position) (name : String) (next : Lowering α) :
    (do
      if ← isReservedShorthand name then error position (place.problem name)
      next) = (do
        let strict ← Lowering.look (·.strict)
        Lowering.remark (.shorthand position strict name place)
        next) := by
  funext s
  have hj := Journal.error_shorthand s.journal position s.strict name place
  show (if reservedShorthand s.strict name s.journal.edition then
    (error position (place.problem name) >>= fun _ => next : Lowering α) else next) s =
    next { s with journal := s.journal.notes [.shorthand position s.strict name place] }
  rw [← hj]
  split <;> rfl

theorem shorthand (place : ShorthandPlace) {position : Position} {name : String} {next : Lowering α}
    (h : Composed next) :
    Composed (do
      if ← isReservedShorthand name then error position (place.problem name)
      next) := by
  rw [shorthand_eq]
  exact bind (look _) fun _ => bind (remark _) fun _ => h

/-! ## Scopes -/

instance instInsideFunction (boundary : Boundary) (isGenerator isAsync : Bool) [h : Composed p] :
    Composed (insideFunction boundary isGenerator isAsync p) :=
  between (.function boundary isGenerator isAsync) h

instance instInsideClass (names : List String) [h : Composed p] : Composed (insideClass names p) :=
  between (.classBody names) h

instance instInsideLoop [h : Composed p] : Composed (insideLoop p) :=
  between .loopBody h

instance instInsideSwitch [h : Composed p] : Composed (insideSwitch p) :=
  between .switchBody h

instance instInsideLabel (label : Identifier) (isLoop : Bool) [h : Composed p] :
    Composed (insideLabel label isLoop p) := by
  unfold insideLabel
  refine bind inferInstance fun s => ?_
  split
  · infer_instance
  · exact between (.labelled ⟨label.name, isLoop⟩) h

end Composed

end Lowering

end EcmaScript
