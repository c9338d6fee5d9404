import EcmaScript.Concrete.Region
import EcmaScript.Journal
import EcmaScript.LineMap
import EcmaScript.Lowering.Scope
import EcmaScript.Node.Basic
import EcmaScript.Options

/-!
# Lowering: the work that goes with it

Lowering turns the concrete tree into nodes and applies the rules that the grammar cannot express:
what can be stored into, where a jump leads, where `return`, `yield`, `await` and `new.target` may
stand, which private names are visible. It never fails: a problem goes to the journal and the node
is built all the same.

## Contents

* `Lowering.State`, `Lowering`: what is carried along.
* `record`, `error`, `warning`, `lexical`, `checkAwait`: notes.
* `insideFunction`, `insideClass`, `insideLoop`, `insideSwitch`, `insideLabel`: scopes.
-/

namespace EcmaScript

namespace Lowering

/-- What lowering carries along. -/
structure State where
  journal : Journal
  scopes : Scopes := .script
  /-- Line table of the source. -/
  lineMap : LineMap
  /-- Whether the source is strict code. -/
  strict : Bool
  /-- Whether an import, an export or `import.meta` was met. -/
  isModule : Bool := false
  /-- Uses of `await` in the script itself, which only a module can have; last one first. -/
  pendingAwaits : List (Position × Problem) := []

end Lowering

/-- A step of lowering. -/
abbrev Lowering (α : Type) := StateM Lowering.State α

namespace Lowering

/-! ## Notes -/

/-- Writes into the journal. -/
def note (f : Journal → Journal) : Lowering Unit :=
  modify fun s => { s with journal := f s.journal }

def record (feature : Feature) (position : Position) : Lowering Unit :=
  note (·.record feature position)

def error (position : Position) (problem : Problem) : Lowering Unit :=
  note (·.error position problem)

def warning (position : Position) (problem : Problem) : Lowering Unit :=
  note (·.warning position problem)

def lexical (d : LexicalDiagnostic) : Lowering Unit := note (·.lexical d)

def scopes : Lowering Scopes := return (← get).scopes

/-- Notes that the source is a module. -/
def markModule (position : Position) : Lowering Unit := do
  modify ({ · with isModule := true })
  record .modules position

/-- Objects to an `await` outside asynchronous functions. In the script itself the objection waits
until it is known whether the source is a module. -/
def checkAwait (position : Position) (problem : Problem) : Lowering Unit := do
  match (← scopes).awaitContext with
  | .allowed => return
  | .topLevel => modify fun s => { s with pendingAwaits := (position, problem) :: s.pendingAwaits }
  | .denied => error position problem

/-- The empty region at an offset. -/
def emptySpanAt (offset : Nat) : Lowering Span :=
  return .emptyAt ((← get).lineMap.position offset)

/-! ## Scopes -/

/-- Runs a step between opening and closing a scope. -/
def between {α : Type} (enter exit : Scopes → Scopes) (step : Lowering α) : Lowering α := do
  modify fun s => { s with scopes := enter s.scopes }
  let a ← step
  modify fun s => { s with scopes := exit s.scopes }
  return a

def insideFunction {α : Type} (boundary : Boundary) (isGenerator isAsync : Bool)
    (step : Lowering α) : Lowering α :=
  between (.enterFunction boundary isGenerator isAsync) .exitFunction step

def insideClass {α : Type} (names : List String) (step : Lowering α) : Lowering α :=
  between (.enterClass names) .exitClass step

def insideLoop {α : Type} (step : Lowering α) : Lowering α := between .enterLoop .exitLoop step

def insideSwitch {α : Type} (step : Lowering α) : Lowering α :=
  between .enterSwitch .exitSwitch step

/-- Runs a step under a label. A label that is in scope already is objected to and stays as it is. -/
def insideLabel {α : Type} (label : Identifier) (isLoop : Bool) (step : Lowering α) :
    Lowering α := do
  match (← scopes).findLabel? label.name with
  | some _ =>
    error label.span.start (.duplicateLabel label.name)
    step
  | none => between (.pushLabel ⟨label.name, isLoop⟩) (.popLabel label.name) step

end Lowering

end EcmaScript
