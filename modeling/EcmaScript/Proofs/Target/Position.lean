import EcmaScript.Lowering.Leaf

/-!
# The positions of a target

A target arrives as an ordinary expression. Written out, its positions are the expression itself and, where it
is a literal without parentheses, what stands at its entries. Each position has a form of its own, which is
legal or not; a whole literal, say, cannot be what an object keeps its rest in.

## Contents

* `Standing`, `Target`, `Expression.targets`: the positions of a target.
* `Target.isLegal`: the legal forms.
* `Expression.embedded`: the values inside a target, which are lowered too.
-/

namespace EcmaScript

/-! ## Positions -/

/-- How an expression stands where something is stored into it. -/
inductive Standing where
  /-- As a target of its own. -/
  | whole
  /-- As an entry of a pattern, which may have a default. -/
  | entry
  /-- Behind the dots of a rest entry. -/
  | rest (ofObject : Bool)
  deriving DecidableEq, Repr

/-- A position of a target. -/
inductive Target where
  /-- The operand of the rest entry of an object, without a default. -/
  | objectRest (e : Expression)
  /-- An expression anywhere else. -/
  | form (e : Expression)
  /-- The name of a property written as a name only. -/
  | shorthand (name : Identifier)
  /-- A method or an accessor. -/
  | method

namespace Standing

/-- The role in which an expression that stands so is lowered. -/
def role (kind : TargetKind) : Standing → Role
  | whole => .target kind
  | entry => .entry kind
  | rest _ => .rest kind

/-- The position that an expression without a default has. -/
def position : Standing → Expression → Target
  | rest true, e => .objectRest e
  | _, e => .form e

end Standing

mutual

/-- The positions of an expression that stands as a target: itself, or what its default is for, and the
positions inside a literal. -/
def Expression.targets (standing : Standing) : Expression → List Target
  | .assignment .assign left right span =>
    match standing with
    | .whole => [.form (.assignment .assign left right span)]
    | .entry | .rest _ => left.targets .whole
  | .array elements trailingComma span =>
    standing.position (.array elements trailingComma span) :: ArrayElement.targets elements
  | .object properties trailingComma span =>
    standing.position (.object properties trailingComma span) :: Property.targets properties
  | e => [standing.position e]

/-- The positions in the entries of an array. -/
def ArrayElement.targets : List ArrayElement → List Target
  | [] => []
  | .hole _ :: rest => ArrayElement.targets rest
  | .item e :: rest => e.targets .entry ++ ArrayElement.targets rest
  | .spread argument _ :: rest => argument.targets (.rest false) ++ ArrayElement.targets rest

/-- The positions in the properties of an object. -/
def Property.targets : List Property → List Target
  | [] => []
  | .keyValue _ value _ :: rest => value.targets .entry ++ Property.targets rest
  | .shorthand name _ _ :: rest => .shorthand name :: Property.targets rest
  | .method _ _ _ :: rest => .method :: Property.targets rest
  | .spread argument _ :: rest => argument.targets (.rest true) ++ Property.targets rest

end


namespace Expression

/-- Whether the expression is a literal that can be read as a pattern. -/
def isPatternLiteral : Expression → Bool
  | array .. | object .. => true
  | _ => false

/-- Names and property accesses outside optional chains, in any number of parentheses. -/
def isReference : Expression → Bool
  | identifier _ => true
  | member receiver property optional span => !(member receiver property optional span).isOptionalChain
  | computedMember receiver key optional span => !(computedMember receiver key optional span).isOptionalChain
  | paren e _ => e.isReference
  | _ => false

theorem isSimpleTarget_eq (e : Expression) : e.isSimpleTarget = e.isReference := by
  cases e with
  | paren e _ => exact isSimpleTarget_eq e
  | _ => rfl

end Expression

/-- The legal forms: names; literals, unless they are all that an object keeps its rest in; and where an
assignment stores, references. -/
def Target.isLegal (kind : TargetKind) : Target → Bool
  | form e => e.isPatternLiteral || Lowering.isIdentifier e || (kind == .assignment && e.isReference)
  | objectRest e => Lowering.isIdentifier e || (kind == .assignment && e.isReference)
  | shorthand _ => true
  | method => false

/-! ## Values inside a target -/

/-- The receiver and the index of a property access in any number of parentheses. -/
def Expression.accessed : Expression → List Expression
  | .member receiver _ _ _ => [receiver]
  | .computedMember receiver key _ _ => [receiver, key]
  | .paren e _ => e.accessed
  | _ => []

mutual

/-- The values inside a target: the defaults, the computed keys, and what its property accesses read. -/
def Expression.embedded (standing : Standing) : Expression → List Expression
  | .assignment .assign left right _ =>
    match standing with
    | .whole => []
    | .entry => left.embedded .whole ++ [right]
    | .rest _ => left.embedded .whole
  | .array elements _ _ => ArrayElement.embedded elements
  | .object properties _ _ => Property.embedded properties
  | e => e.accessed

def ArrayElement.embedded : List ArrayElement → List Expression
  | [] => []
  | .hole _ :: rest => ArrayElement.embedded rest
  | .item e :: rest => e.embedded .entry ++ ArrayElement.embedded rest
  | .spread argument _ :: rest => argument.embedded (.rest false) ++ ArrayElement.embedded rest

def Property.embedded : List Property → List Expression
  | [] => []
  | .keyValue (.computed key _) value _ :: rest =>
    key :: (value.embedded .entry ++ Property.embedded rest)
  | .keyValue _ value _ :: rest => value.embedded .entry ++ Property.embedded rest
  | .shorthand _ default _ :: rest => default.toList ++ Property.embedded rest
  | .method _ _ _ :: rest => Property.embedded rest
  | .spread argument _ :: rest => argument.embedded (.rest true) ++ Property.embedded rest

end
end EcmaScript
