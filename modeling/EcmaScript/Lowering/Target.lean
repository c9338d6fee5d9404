import EcmaScript.Lowering.Basic

/-!
# Targets

The part that an expression plays decides how it is read: as a value, or as something to store into.
Bindings accept names and patterns, assignments property accesses too.

## Contents

* `TargetKind`, `Role`: the parts.
* `Role.check`: objects to an expression that cannot play its part.
-/

namespace EcmaScript

/-- What stores into a target. -/
inductive TargetKind where
  /-- A declaration, a parameter or a catch clause. -/
  | binding
  /-- An assignment or the head of a loop. -/
  | assignment
  deriving DecidableEq, Repr, Inhabited

/-- How a parameter stands in its list. -/
structure ParameterPlace where
  isLast : Bool
  /-- Whether a comma follows the last parameter. -/
  trailingComma : Bool
  /-- Whether the list as a whole was objected to already. -/
  objected : Bool
  deriving DecidableEq, Repr, Inhabited

/-- The part that an expression plays. -/
inductive Role where
  | value
  /-- What a call calls. -/
  | callee
  /-- A place to store into. -/
  | target (kind : TargetKind)
  /-- An entry of a pattern: a target that may have a default. -/
  | entry (kind : TargetKind)
  /-- The operand of a rest entry, which has no default. -/
  | rest (kind : TargetKind)
  | parameter (place : ParameterPlace)
  deriving DecidableEq, Repr, Inhabited

namespace Role

/-- What stores into the expression, if something does. -/
def targetKind? : Role → Option TargetKind
  | value | callee => none
  | target kind | entry kind | rest kind => some kind
  | parameter _ => some .binding

/-- Whether the expression can be stored into as it is. -/
def isTarget (kind : TargetKind) : Expression → Bool
  | .identifier _ | .array _ _ _ | .object _ _ _ => true
  | e => kind == .assignment && e.isSimpleTarget

/-- Objects to an expression that cannot be stored into. -/
def checkTarget (kind : TargetKind) (e : Expression) : Lowering Unit := do
  unless isTarget kind e do Lowering.error e.start .invalidAssignmentTarget

/-- Objects to an expression that cannot play its part. -/
def check (role : Role) (e : Expression) : Lowering Unit := do
  match role, e with
  | value, _ => return
  | callee, _ => return
  | entry _, .assignment .assign _ _ _ => return
  | parameter _, .assignment .assign _ _ _ => return
  | parameter _, .spread _ _ => return
  | rest _, .assignment .assign _ _ s => Lowering.error s.start .defaultAfterRest
  | rest kind, .assignment op l r s =>
    Lowering.error s.start .defaultAfterRest
    checkTarget kind (.assignment op l r s)
  | target kind, e => checkTarget kind e
  | entry kind, e => checkTarget kind e
  | rest kind, e => checkTarget kind e
  | parameter _, e => checkTarget .binding e

end Role

namespace Lowering

/-- Objects to the target of a combined assignment unless it is a name or a property access. -/
def checkSimpleTarget (e : Expression) : Lowering Unit := do
  unless e.isSimpleTarget do error e.start .invalidAssignmentTarget

/-- Objects to a rest entry that others follow, or a comma. -/
def checkRest (isLast trailingComma : Bool) (span : Span) : Lowering Unit := do
  if !isLast then error span.start .restNotLast
  else if trailingComma then error span.start .commaAfterRest

/-- Objects to a pattern as the operand of the rest entry of an object. -/
def checkObjectRest (argument : Expression) : Lowering Unit := do
  match argument with
  | .array _ _ s | .object _ _ s => error s.start .invalidAssignmentTarget
  | _ => return

end Lowering

end EcmaScript
