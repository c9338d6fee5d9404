import EcmaScript.Grammar.Primary

/-!
# Operators

Binary operators are read with a stack: an operator waits there with its left operand until one that
binds no tighter arrives, or the expression ends.

## Contents

* `suffixes`, `leftHandSide`, `construction`: accesses, calls and `new`.
* `unary`: operators on one operand.
* `OperatorStack`, `binary`: operators on two operands.
* `assignment`: conditions, assignments and `yield`.
-/

namespace EcmaScript

namespace Grammar

/-! ## Accesses and calls -/

/-- The name behind the dot of an access. -/
def memberName : Production MemberName := do
  let token ← current
  match token.kind with
  | .privateName name =>
    skip
    return .hidden ⟨name, token.span⟩
  | _ => .plain <$> identifierName

/-- An access by name. -/
def namedAccess (receiver : Expression) (optional : Bool) : Production Expression := do
  let name ← memberName
  return .member receiver name optional name.identifier.span

/-- An access by a key in brackets. -/
def computedAccess (read : Reader) (receiver : Expression) (optional : Bool) :
    Production Expression := do
  skip
  let key ← allowingIn (expression read)
  let _ ← expectMark .rightBracket
  return .computedMember receiver key optional (← spanFrom receiver.start)

def callOf (read : Reader) (callee : Expression) (optional : Bool) : Production Expression := do
  let (items, trailingComma, _) ← arguments read
  return .call callee items trailingComma optional (← spanFrom callee.start)

/-- What follows the mark of an optional link. -/
def optionalSuffix (read : Reader) (receiver : Expression) : Production Expression := do
  match (← current).kind with
  | .punctuator .leftParen => callOf read receiver true
  | .punctuator .leftBracket => computedAccess read receiver true
  | .punctuator .leftBrace => failHere .braceInOptionalChain
  | .template _ => failHere .templateInOptionalChain
  | _ => namedAccess receiver true

def isSuper : Expression → Bool
  | .super _ => true
  | _ => false

/-- One further access, call or tagged template behind `receiver`. Calls and optional links do not
belong to the operand of `new`. -/
def suffix? (read : Reader) (callsAllowed : Bool) (receiver : Expression) :
    Production (Option Expression) := do
  match (← current).kind with
  | .punctuator .dot =>
    skip
    some <$> namedAccess receiver false
  | .punctuator .optionalChain =>
    if !callsAllowed then failHere .optionalChainInConstruction
    if isSuper receiver then failHere .optionalChainOnSuper
    skip
    some <$> optionalSuffix read receiver
  | .punctuator .leftBracket => some <$> computedAccess read receiver false
  | .punctuator .leftParen => if callsAllowed then some <$> callOf read receiver false else return none
  | .template _ =>
    if receiver.isOptionalChain then failHere .templateInOptionalChain
    let (texts, values, span) ← template read
    return some (.taggedTemplate receiver texts values span (← spanFrom receiver.start))
  | _ => return none

/-- The part of `suffixes` that has `limit` rounds left. -/
def suffixesFrom (read : Reader) (callsAllowed : Bool) : Nat → Expression → Production Expression
  | 0, receiver => return receiver
  | limit + 1, receiver => do
    match ← suffix? read callsAllowed receiver with
    | some next => suffixesFrom read callsAllowed limit next
    | none => return receiver

/-- All accesses, calls and tagged templates behind `receiver`. -/
def suffixes (read : Reader) (callsAllowed : Bool) (receiver : Expression) :
    Production Expression := do
  suffixesFrom read callsAllowed ((← get).lexer.rest.length + 2) receiver

/-- An expression that starts with `new`. -/
def construction (read : Reader) : Production Expression := do
  let start ← position
  skip
  if ← eatMark .dot then
    let _ ← expectName "target"
    return .newTarget (← spanFrom start)
  else
    let operand ← if ← atWord .newWord then read .construction else primary read
    let callee ← suffixes read false operand
    if ← atMark .leftParen then
      let (items, trailingComma, _) ← arguments read
      return .construction callee items trailingComma (← spanFrom start)
    else return .construction callee [] false (← spanFrom start)

/-- An operand with its accesses and calls. -/
def leftHandSide (read : Reader) : Production Expression := do
  let operand ← if ← atWord .newWord then construction read else primary read
  if operand.isArrow then return operand else suffixes read true operand

/-! ## Operators on one operand -/

def unaryOperator? (token : Token) : Option UnaryOperator :=
  match token.kind with
  | .punctuator .minus => some .minus
  | .punctuator .plus => some .plus
  | .punctuator .bang => some .not
  | .punctuator .tilde => some .bitwiseNot
  | .keyword .typeofWord => some .typeof
  | .keyword .voidWord => some .void
  | .keyword .deleteWord => some .delete
  | _ => none

/-- Whether a token is an increment (`true`) or a decrement (`false`). -/
def updateOperator? (token : Token) : Option Bool :=
  match token.kind with
  | .punctuator .plusPlus => some true
  | .punctuator .minusMinus => some false
  | _ => none

/-- Whether a token that follows `await` makes it an operator even outside asynchronous code. -/
def makesAwaitOperator (next : Token) : Bool :=
  match next.kind with
  | .identifier _ | .number _ | .bigint _ | .string _ | .template _ => true
  | .keyword word =>
    [Keyword.thisWord, .newWord, .functionWord, .classWord, .nullWord, .trueWord, .falseWord,
      .typeofWord, .voidWord, .deleteWord, .superWord, .importWord].contains word
  | .punctuator mark => mark == .bang || mark == .tilde
  | _ => false

/-- Whether `await` stands under the cursor as an operator. Outside asynchronous code it is one
where it can be nothing else, so that its misuse can be named. -/
def atAwaitOperator : Production Bool := do
  if !(← atName "await") then return false
  else if (← context).inAsync then return true
  else
    let next ← peek
    return !next.newlineBefore && makesAwaitOperator next

/-- An operand with the increment or decrement that may follow it on its line. -/
def updatable (read : Reader) : Production Expression := do
  let start ← position
  let operand ← leftHandSide read
  let token ← current
  match updateOperator? token with
  | some increment =>
    if token.newlineBefore then return operand
    else
      skip
      return .update increment true operand (← spanFrom start)
  | none => return operand

/-- An operand of a binary operator. -/
def unary (read : Reader) : Production Expression := do
  let token ← current
  match unaryOperator? token with
  | some operator =>
    skip
    let argument ← read .unary
    return .unary operator argument (← spanFrom token.start)
  | none =>
    match updateOperator? token with
    | some increment =>
      skip
      let argument ← read .unary
      return .update increment false argument (← spanFrom token.start)
    | none =>
      if ← atAwaitOperator then
        skip
        let argument ← read .unary
        return .await argument (← spanFrom token.start)
      else updatable read

/-! ## Operators on two operands -/

/-- The binary operator that a token is; `in` is none where `noIn`. -/
def binaryOperator? (noIn : Bool) (token : Token) : Option BinaryOperator :=
  match token.kind with
  | .keyword .inWord => if noIn then none else some .isIn
  | .keyword .instanceofWord => some .instanceof
  | .punctuator .coalesce => some .coalesce
  | .punctuator .orOr => some .or
  | .punctuator .andAnd => some .and
  | .punctuator .bar => some .bitwiseOr
  | .punctuator .caret => some .bitwiseXor
  | .punctuator .ampersand => some .bitwiseAnd
  | .punctuator .equal => some .equal
  | .punctuator .notEqual => some .notEqual
  | .punctuator .strictEqual => some .strictEqual
  | .punctuator .strictNotEqual => some .strictNotEqual
  | .punctuator .less => some .less
  | .punctuator .greater => some .greater
  | .punctuator .lessEqual => some .lessEqual
  | .punctuator .greaterEqual => some .greaterEqual
  | .punctuator .shiftLeft => some .shiftLeft
  | .punctuator .shiftRight => some .shiftRight
  | .punctuator .shiftRightUnsigned => some .shiftRightUnsigned
  | .punctuator .plus => some .add
  | .punctuator .minus => some .subtract
  | .punctuator .star => some .multiply
  | .punctuator .slash => some .divide
  | .punctuator .percent => some .modulo
  | .punctuator .starStar => some .exponent
  | _ => none

/-- Whether a coalescing operator and a logical one meet without parentheses. -/
def mixesCoalesce (operator : BinaryOperator) : Expression → Bool
  | .binary inner _ _ _ =>
    (operator == .coalesce && inner.isLogical) || (operator.isLogical && inner == .coalesce)
  | _ => false

/-- An operator that waits for its right operand to be complete. -/
structure WaitingOperator where
  left : Expression
  operator : BinaryOperator
  position : Position

/-- The node of an operator whose operands are complete. -/
def WaitingOperator.apply (w : WaitingOperator) (right : Expression) :
    Except Failure Expression :=
  if mixesCoalesce w.operator w.left || mixesCoalesce w.operator right then
    throw (.unexpected Problem.mixedCoalesce.message w.position)
  else return .binary w.operator w.left right (.between w.left.start right.span.stop)

/-- Operands and operators of which the last operand may still grow. -/
structure OperatorStack where
  /-- The last operand. -/
  top : Expression
  /-- The operators before it, last one first. -/
  waiting : List WaitingOperator := []

/-- Completes operators from the top as long as they satisfy `ready`. -/
def OperatorStack.reduce (ready : BinaryOperator → Bool) :
    List WaitingOperator → Expression → Except Failure OperatorStack
  | [], top => return ⟨top, []⟩
  | w :: rest, top =>
    if ready w.operator then do OperatorStack.reduce ready rest (← w.apply top)
    else return ⟨top, w :: rest⟩

/-- Whether an operator takes its right operand before `next` can have it: it binds tighter, or as
tight unless `next` groups from the right. -/
def precedes (next operator : BinaryOperator) : Bool :=
  if next.isRightAssociative then next.precedence < operator.precedence
  else next.precedence ≤ operator.precedence

/-- Refuses a unary operator on the base of an exponentiation. -/
def checkExponentBase (base : Expression) : Except Failure Unit :=
  match base with
  | .unary operator _ _ =>
    throw (.unexpected (Problem.unaryBeforeExponent operator.spelling).message base.start)
  | .await _ _ => throw (.unexpected (Problem.unaryBeforeExponent "await").message base.start)
  | _ => return

/-- The stack when the operator `next` is met: its left operand is complete. -/
def OperatorStack.meet (stack : OperatorStack) (next : BinaryOperator) :
    Except Failure OperatorStack := do
  let reduced ← reduce (precedes next) stack.waiting stack.top
  if next == .exponent then checkExponentBase reduced.top
  return reduced

/-- The expression that the whole stack stands for. -/
def OperatorStack.finish (stack : OperatorStack) : Except Failure Expression :=
  OperatorStack.top <$> reduce (fun _ => true) stack.waiting stack.top

/-- A result of the stack as a production. -/
def liftStack {α : Type} : Except Failure α → Production α
  | .ok a => return a
  | .error failure => throw failure

/-- The part of `binary` that has `limit` operators left. -/
def binaryFrom (read : Reader) : Nat → OperatorStack → Production Expression
  | 0, stack => liftStack stack.finish
  | limit + 1, stack => do
    let token ← current
    match binaryOperator? (← context).noIn token with
    | none => liftStack stack.finish
    | some operator =>
      let reduced ← liftStack (stack.meet operator)
      skip
      let operand ← unary read
      binaryFrom read limit ⟨operand, ⟨reduced.top, operator, token.start⟩ :: reduced.waiting⟩

/-- Operands with the binary operators between them. -/
def binary (read : Reader) : Production Expression := do
  let first ← unary read
  if first.isArrow then return first
  else binaryFrom read ((← get).lexer.rest.length + 2) ⟨first, []⟩

/-! ## Conditions and assignments -/

def conditional (read : Reader) : Production Expression := do
  let start ← position
  let test ← binary read
  if test.isArrow then return test
  else if ← eatMark .question then
    let consequent ← allowingIn (read .assignment)
    let _ ← expectMark .colon
    let alternate ← read .assignment
    return .conditional test consequent alternate (← spanFrom start)
  else return test

def assignmentOperator? (token : Token) : Option AssignmentOperator :=
  match token.kind with
  | .punctuator .assign => some .assign
  | .punctuator .plusAssign => some .add
  | .punctuator .minusAssign => some .subtract
  | .punctuator .starAssign => some .multiply
  | .punctuator .slashAssign => some .divide
  | .punctuator .percentAssign => some .modulo
  | .punctuator .starStarAssign => some .exponent
  | .punctuator .shiftLeftAssign => some .shiftLeft
  | .punctuator .shiftRightAssign => some .shiftRight
  | .punctuator .shiftRightUnsignedAssign => some .shiftRightUnsigned
  | .punctuator .ampersandAssign => some .bitwiseAnd
  | .punctuator .barAssign => some .bitwiseOr
  | .punctuator .caretAssign => some .bitwiseXor
  | .punctuator .andAndAssign => some .and
  | .punctuator .orOrAssign => some .or
  | .punctuator .coalesceAssign => some .coalesce
  | _ => none

/-- Whether a token can start the operand of `yield`. -/
def startsYieldOperand (token : Token) : Bool :=
  match token.kind with
  | .endOfText | .keyword .inWord => false
  | .punctuator mark =>
    match mark with
    | .rightParen | .rightBracket | .rightBrace | .comma | .semicolon | .colon | .question
    | .arrow => false
    | _ => true
  | _ => true

/-- The operand of `yield`, if it has one on its line, and whether a star stands before it. -/
def yieldOperand (read : Reader) : Production (Option Expression × Bool) := do
  if (← current).newlineBefore then return (none, false)
  else if ← eatMark .star then
    unless startsYieldOperand (← current) do failHere .yieldStarWithoutOperand
    return (some (← read .assignment), true)
  else if startsYieldOperand (← current) then return (some (← read .assignment), false)
  else return (none, false)

def yieldExpression (read : Reader) : Production Expression := do
  let start ← position
  skip
  let (argument, delegate) ← yieldOperand read
  return .yield argument delegate (← spanFrom start)

/-- An expression without commas. -/
def assignment (read : Reader) : Production Expression := do
  if (← context).inGenerator && (← atName "yield") then yieldExpression read
  else
    let start ← position
    let left ← conditional read
    if left.isArrow then return left
    else match assignmentOperator? (← current) with
      | none => return left
      | some operator =>
        skip
        let right ← read .assignment
        return .assignment operator left right (← spanFrom start)

end Grammar

end EcmaScript
