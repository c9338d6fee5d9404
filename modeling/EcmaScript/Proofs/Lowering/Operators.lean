import EcmaScript.Proofs.Shape.Face

/-!
# Chains of operators, with and without a stack

Lowering goes down the left side of a chain of operators with a list of those that wait, lowers the operand at
the bottom, and then applies what waits, the innermost first. `recursively` says the same without a list: the
left operand, the feature of the operator, the right operand, the node. What an operator notes lies between what
its two operands note, so the loop has to come back to each operator at the right time; and a private name at
the bottom is the operand of a membership test if it is the innermost operator that tests.

## Contents

* `recursively`: an expression by recursion on the operands of its operators.
* `expression_eq_recursively`: the loop does the same.
-/

namespace EcmaScript

namespace Lowering

/-- Lowers an expression by recursion on both operands of an operator. Only the membership test has a private
name on its left; what is no operator is lowered as ever. -/
def recursively : Expression → Lowering Node
  | .binary .isIn (.privateName name) right span => do
    let a ← privateOperand name
    recordBinary .isIn span
    let b ← recursively right
    return .branch (.ofBinary .isIn) span [a, b]
  | .binary operator left right span => do
    let a ← recursively left
    recordBinary operator span
    let b ← recursively right
    return .branch (.ofBinary operator) span [a, b]
  | e => expression [] .value e

/-- A left operand of its own kind stands before the membership test only. -/
theorem operand_eq {operator : BinaryOperator} {left : Expression}
    (h : ∀ name, left = .privateName name → operator ≠ .isIn) :
    operand operator left = expression [] .value left := by
  cases left with
  | privateName name =>
      have hne : (operator == .isIn) = false := beq_false_of_ne (h name rfl)
      rw [operand, hne, expression]
      rfl
  | _ => rfl

/-- **A value is lowered as by recursion.** The induction is that of the recursion, so that both operands of an
operator are known when the operator is. -/
theorem expression_value (e : Expression) : expression [] .value e = recursively e := by
  fun_induction recursively e with
  | case1 name right span ih =>
      rw [expression_binary, ← ih]
      rfl
  | case2 operator left right span hno ihleft ihright =>
      rw [expression_binary, operand_eq fun name hl ho => hno name ho hl, ← ihleft, ← ihright]
      rfl
  | case3 e hno => rfl

end Lowering

end EcmaScript
