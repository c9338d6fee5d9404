/-!
# Operators

## Contents

* `UnaryOperator`, `BinaryOperator`, `AssignmentOperator`: the operators of expressions.
* `UnaryOperator.spelling`: the operator as diagnostics quote it.
* `BinaryOperator.precedence`: how tightly an operator binds its operands.
-/

namespace EcmaScript

/-- An operator before its operand. -/
inductive UnaryOperator where
  | minus
  | plus
  | not
  | bitwiseNot
  | typeof
  | void
  | delete
  deriving DecidableEq, Repr, Inhabited

namespace UnaryOperator

/-- The operator as it is written. -/
def spelling : UnaryOperator → String
  | minus => "-"
  | plus => "+"
  | not => "!"
  | bitwiseNot => "~"
  | typeof => "typeof"
  | void => "void"
  | delete => "delete"

end UnaryOperator

/-- An operator between two operands, the logical ones included. -/
inductive BinaryOperator where
  | coalesce
  | or
  | and
  | bitwiseOr
  | bitwiseXor
  | bitwiseAnd
  | equal
  | notEqual
  | strictEqual
  | strictNotEqual
  | less
  | greater
  | lessEqual
  | greaterEqual
  | instanceof
  | isIn
  | shiftLeft
  | shiftRight
  | shiftRightUnsigned
  | add
  | subtract
  | multiply
  | divide
  | modulo
  | exponent
  deriving DecidableEq, Repr, Inhabited

namespace BinaryOperator

/-- How tightly the operator binds; an operator of a higher precedence takes its operands first. -/
def precedence : BinaryOperator → Nat
  | coalesce => 1
  | or => 2
  | and => 3
  | bitwiseOr => 4
  | bitwiseXor => 5
  | bitwiseAnd => 6
  | equal | notEqual | strictEqual | strictNotEqual => 7
  | less | greater | lessEqual | greaterEqual | instanceof | isIn => 8
  | shiftLeft | shiftRight | shiftRightUnsigned => 9
  | add | subtract => 10
  | multiply | divide | modulo => 11
  | exponent => 12

/-- Whether a chain of this operator groups from the right. -/
def isRightAssociative (op : BinaryOperator) : Bool := op == .exponent

/-- Whether the operator is the logical disjunction or conjunction, which cannot stand beside a
coalescing operator without parentheses. -/
def isLogical : BinaryOperator → Bool
  | or | and => true
  | _ => false

end BinaryOperator

/-- An operator that stores into its left operand. -/
inductive AssignmentOperator where
  | assign
  | add
  | subtract
  | multiply
  | divide
  | modulo
  | exponent
  | shiftLeft
  | shiftRight
  | shiftRightUnsigned
  | bitwiseAnd
  | bitwiseOr
  | bitwiseXor
  | and
  | or
  | coalesce
  deriving DecidableEq, Repr, Inhabited

end EcmaScript
