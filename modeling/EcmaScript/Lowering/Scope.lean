/-!
# Scopes

What encloses a place: functions with their labels and loops, and classes with their private names.
Every construct that opens a scope closes it again, so closing undoes opening.

## Contents

* `Boundary`, `FunctionScope`: what a jump cannot cross.
* `Scopes`: the enclosing functions and classes, innermost first.
* `Scopes.awaitContext`, `Scopes.returnAllowed`, `Scopes.newTargetAllowed`: what may stand at a place.
-/

namespace EcmaScript

/-- What opens a function scope. -/
inductive Boundary where
  | script
  | function
  | arrow
  | staticBlock
  | fieldInitializer
  deriving DecidableEq, Repr, Inhabited

/-- A label and whether it belongs to a loop. -/
structure Label where
  name : String
  isLoop : Bool
  deriving DecidableEq, Repr, Inhabited

/-- The state of one function. -/
structure FunctionScope where
  boundary : Boundary
  isGenerator : Bool := false
  isAsync : Bool := false
  /-- The labels around the place, innermost first. -/
  labels : List Label := []
  /-- Number of loops around the place. -/
  loops : Nat := 0
  /-- Number of loops and switches around the place. -/
  breakables : Nat := 0
  deriving DecidableEq, Repr, Inhabited

/-- Everything around a place. -/
structure Scopes where
  /-- The innermost function. -/
  function : FunctionScope
  /-- The functions around it, innermost first. -/
  outer : List FunctionScope
  /-- The private names of the classes around the place, innermost first. -/
  classes : List (List String)
  deriving DecidableEq, Repr, Inhabited

/-- Whether `await` may stand at a place. -/
inductive AwaitContext where
  | allowed
  /-- In the script itself, which may turn out to be a module. -/
  | topLevel
  | denied
  deriving DecidableEq, Repr, Inhabited

namespace Scopes

/-- The place outside all functions and classes. -/
def script : Scopes := ⟨{ boundary := .script }, [], []⟩

/-! ## Functions -/

def enterFunction (boundary : Boundary) (isGenerator isAsync : Bool) (s : Scopes) : Scopes :=
  { s with function := { boundary, isGenerator, isAsync }, outer := s.function :: s.outer }

/-- Leaves the innermost function; the script is never left. -/
def exitFunction (s : Scopes) : Scopes :=
  match s.outer with
  | [] => s
  | f :: rest => { s with function := f, outer := rest }

def awaitContext (s : Scopes) : AwaitContext :=
  if s.function.isAsync then .allowed
  else if s.function.boundary = .script then .topLevel
  else .denied

def returnAllowed (s : Scopes) : Bool :=
  s.function.boundary == .function || s.function.boundary == .arrow

/-- Whether the innermost boundary that is no arrow is a function or a field. -/
def newTargetAllowed (s : Scopes) : Bool :=
  match (s.function :: s.outer).find? (·.boundary != .arrow) with
  | some f => f.boundary == .function || f.boundary == .fieldInitializer
  | none => false

/-! ## Loops, switches and labels -/

def onFunction (f : FunctionScope → FunctionScope) (s : Scopes) : Scopes :=
  { s with function := f s.function }

def enterLoop : Scopes → Scopes :=
  onFunction fun f => { f with loops := f.loops + 1, breakables := f.breakables + 1 }

def exitLoop : Scopes → Scopes :=
  onFunction fun f => { f with loops := f.loops - 1, breakables := f.breakables - 1 }

def enterSwitch : Scopes → Scopes :=
  onFunction fun f => { f with breakables := f.breakables + 1 }

def exitSwitch : Scopes → Scopes :=
  onFunction fun f => { f with breakables := f.breakables - 1 }

def inLoop (s : Scopes) : Bool := 0 < s.function.loops

def inBreakable (s : Scopes) : Bool := 0 < s.function.breakables

/-- The label of the given name in the innermost function. -/
def findLabel? (s : Scopes) (name : String) : Option Label :=
  s.function.labels.find? (·.name == name)

def pushLabel (label : Label) : Scopes → Scopes :=
  onFunction fun f => { f with labels := label :: f.labels }

def popLabel (name : String) : Scopes → Scopes :=
  onFunction fun f => { f with labels := f.labels.eraseP (·.name == name) }

/-! ## Classes -/

def enterClass (names : List String) (s : Scopes) : Scopes :=
  { s with classes := names :: s.classes }

def exitClass (s : Scopes) : Scopes := { s with classes := s.classes.tail }

def inClass (s : Scopes) : Bool := !s.classes.isEmpty

/-- Whether a class around the place declares the private name. -/
def declaresPrivate (s : Scopes) (name : String) : Bool := s.classes.any (·.contains name)

/-! ## Closing undoes opening -/

@[simp] theorem exitFunction_enterFunction (b : Boundary) (g a : Bool) (s : Scopes) :
    exitFunction (enterFunction b g a s) = s := rfl

@[simp] theorem exitLoop_enterLoop (s : Scopes) : exitLoop (enterLoop s) = s := rfl

@[simp] theorem exitSwitch_enterSwitch (s : Scopes) : exitSwitch (enterSwitch s) = s := rfl

@[simp] theorem popLabel_pushLabel (l : Label) (s : Scopes) :
    popLabel l.name (pushLabel l s) = s := by
  simp [popLabel, pushLabel, onFunction]

@[simp] theorem exitClass_enterClass (names : List String) (s : Scopes) :
    exitClass (enterClass names s) = s := rfl

end Scopes

end EcmaScript
