import EcmaScript.Lowering.Basic

/-!
# Parameters and class bodies

Rules about a whole list of parameters and a whole list of members.

## Contents

* `Node.boundNames`: the names that a target binds.
* `Node.suspensions`: `yield` and `await` outside nested functions and classes.
* `Lowering.checkAccessor`, `Lowering.checkDuplicates`, `Lowering.checkDefault`: lists of parameters.
* `Lowering.checkConstructors`, `privateNames`: class bodies.
-/

namespace EcmaScript

namespace Node

mutual

/-- The names that a target binds, in the order of the text. -/
def boundNames : Node → List (String × Span)
  | ⟨kind, payload, children, span, _, _, _, _⟩ =>
    match kind with
    | .identifier =>
      match payload with
      | .text name => [(name, span)]
      | _ => []
    | .defaultValue | .iterRest | .objectRest | .stringKey =>
      match children with
      | target :: _ => boundNames target
      | [] => []
    | .computedProp =>
      match children with
      | _ :: target :: _ => boundNames target
      | _ => []
    | .arrayPattern | .objectPattern => boundNamesAll children
    | _ => []

def boundNamesAll : List Node → List (String × Span)
  | [] => []
  | n :: rest => boundNames n ++ boundNamesAll rest

end

mutual

/-- Every `yield` and `await` that belongs to the function around the node, in pre-order. -/
def suspensions : Node → List (Span × Problem)
  | ⟨kind, _, children, span, _, _, _, _⟩ =>
    match kind with
    | .function | .classDefinition => []
    | .yield => (span, .yieldInParameterDefault) :: suspensionsAll children
    | .await => (span, .awaitInParameterDefault) :: suspensionsAll children
    | _ => suspensionsAll children

def suspensionsAll : List Node → List (Span × Problem)
  | [] => []
  | n :: rest => suspensions n ++ suspensionsAll rest

end

end Node

namespace Lowering

/-! ## Parameters -/

/-- Whether a list of parameters starts with a rest parameter. -/
def startsWithRest : List Expression → Bool
  | .spread _ _ :: _ => true
  | _ => false

/-- What is wrong with the parameters of an accessor. -/
def accessorProblem? (kind : FunctionKind) (items : List Expression) : Option Problem :=
  match kind with
  | .getter => if items.isEmpty then none else some (.getterParameters items.length)
  | .setter =>
    if items.length ≠ 1 then some (.setterParameters items.length)
    else if startsWithRest items then some .setterRest
    else none
  | _ => none

/-- Objects to the parameters of an accessor, and says whether it did. -/
def checkAccessor (kind : FunctionKind) (items : List Expression) (span : Span) :
    Lowering Bool := do
  match accessorProblem? kind items with
  | some problem =>
    error span.start problem
    return true
  | none => return false

/-- Warns about names that were seen before. -/
def checkDuplicates (seen : List String) : List (String × Span) → Lowering Unit
  | [] => return
  | (name, span) :: rest => do
    if seen.contains name then
      warning span.start (.duplicateParameter name)
      checkDuplicates seen rest
    else checkDuplicates (name :: seen) rest

/-- Objects to `yield` and `await` in the default of a parameter. -/
def checkDefault (default : Node) : Lowering Unit :=
  default.suspensions.forM fun (span, problem) => error span.start problem

/-! ## Classes -/

/-- The private name that a member declares. -/
def privateName? : ClassMember → Option String
  | .method (.hidden name) _ _ _ | .field (.hidden name) _ _ _ => some name.name
  | _ => none

/-- The private names that the members of a class declare. -/
def privateNames (members : List ClassMember) : List String := members.filterMap privateName?

/-- The constructor that a member is: a method with the plain name, which is not static. -/
def constructor? : ClassMember → Option (Identifier × Function)
  | .method (.name name) function false _ =>
    if name.name == "constructor" then some (name, function) else none
  | _ => none

/-- Objects to constructors with modifiers and to all but the first one. -/
def checkConstructors (seen : Bool) : List (Identifier × Function) → Lowering Unit
  | [] => return
  | (name, function) :: rest => do
    if function.kind != .method || function.isAsync || function.isGenerator then
      error name.span.start .constructorModifiers
    else if seen then error name.span.start .duplicateConstructor
    checkConstructors true rest

end Lowering

end EcmaScript
