import EcmaScript.Grammar.Module

/-!
# Statements

## Contents

* `declaration`: variables with their targets and values.
* `statement`: a statement of any kind.
* `read`: all nonterminals, tied together up to a depth.
-/

namespace EcmaScript

namespace Grammar

/-! ## Declarations -/

/-- A target and the value it starts with. -/
def declarator (read : Reader) : Production Declarator := do
  let start ← position
  let target ← bindingTarget read
  let value ← if ← eatMark .assign then some <$> read .assignment else pure none
  return .mk target value (← spanFrom start)

def commaDeclarator (read : Reader) : Production (Option Declarator) := do
  if ← eatMark .comma then some <$> declarator read else return none

/-- A declaration without its end; its first word stands under the cursor. -/
def declaration (read : Reader) (kind : VariableKind) : Production Declaration := do
  let start ← position
  skip
  let first ← declarator read
  let others ← collect (commaDeclarator read)
  return .mk kind (first :: others) (← spanFrom start)

/-- A declaration as a statement. -/
def declarationStatement (read : Reader) (kind : VariableKind) : Production Statement := do
  let start ← position
  let decl ← declaration read kind
  endStatement
  return .variable (decl.withSpan (← spanFrom start))

/-- Refuses a declaration whose scope would be a single statement. -/
def checkPlace (place : Place) : Production Unit := do
  if place == .nested then failHere .lexicalDeclarationMisplaced

/-- Whether the token behind `let` makes it a declaration. -/
def startsLetTarget (next : Token) : Bool :=
  match next.kind with
  | .identifier name => !(name == "in" || name == "instanceof" || name == "of")
  | .punctuator .leftBracket | .punctuator .leftBrace => true
  | .keyword _ => !next.newlineBefore
  | _ => false

/-! ## Loops -/

/-- What the head of a loop starts with. -/
def loopHead (read : Reader) : Production (Option LoopHead) := do
  if ← atMark .semicolon then return none
  else if ← atWord .varWord then some <$> .declaration <$> declaration read .var
  else if ← atWord .constWord then some <$> .declaration <$> declaration read .const
  else if (← atName "let") && startsLetTarget (← peek) then
    some <$> .declaration <$> declaration read .letWord
  else some <$> .expression <$> expression read

/-- The rest of a loop with a condition and a step. -/
def countingLoop (read : Reader) (head : Option LoopHead) (start : Position) :
    Production Statement := do
  let _ ← expectMark .semicolon
  let test ← if ← atMark .semicolon then pure none else some <$> allowingIn (expression read)
  let _ ← expectMark .semicolon
  let update ← if ← atMark .rightParen then pure none else some <$> allowingIn (expression read)
  let _ ← expectMark .rightParen
  let body ← read (.statement .nested)
  return .for head test update body (← spanFrom start)

/-- The rest of a loop over the keys of an object. -/
def keyLoop (read : Reader) (head : LoopHead) (start : Position) : Production Statement := do
  skip
  let object ← allowingIn (expression read)
  let _ ← expectMark .rightParen
  let body ← read (.statement .nested)
  return .forIn head object body (← spanFrom start)

/-- The rest of a loop over the values of an iterable. -/
def valueLoop (read : Reader) (head : LoopHead) (isAwait : Bool) (start : Position) :
    Production Statement := do
  skip
  let iterable ← allowingIn (read .assignment)
  let _ ← expectMark .rightParen
  let body ← read (.statement .nested)
  return .forOf head iterable body isAwait (← spanFrom start)

/-- A loop that starts with `for`. -/
def forStatement (read : Reader) : Production Statement := do
  let start ← position
  skip
  let isAwait ← eatName "await"
  let _ ← expectMark .leftParen
  let head ← within ({ · with noIn := true }) (loopHead read)
  match head with
  | some first =>
    if !isAwait && (← atWord .inWord) then keyLoop read first start
    else if ← atName "of" then valueLoop read first isAwait start
    else if isAwait then failHere (.expected "of")
    else countingLoop read head start
  | none => if isAwait then failHere (.expected "of") else countingLoop read none start

def whileStatement (read : Reader) : Production Statement := do
  let start ← position
  skip
  let test ← condition read
  let body ← read (.statement .nested)
  return .while test body (← spanFrom start)

/-- A loop that tests behind its body; the semicolon after it can always be left out. -/
def doStatement (read : Reader) : Production Statement := do
  let start ← position
  skip
  let body ← read (.statement .nested)
  let _ ← expectWord .whileWord
  let test ← condition read
  let _ ← eatMark .semicolon
  return .doWhile body test (← spanFrom start)

/-! ## Branches -/

def ifStatement (read : Reader) : Production Statement := do
  let start ← position
  skip
  let test ← condition read
  let consequent ← read (.statement .nested)
  let alternate ←
    if ← eatWord .elseWord then some <$> read (.statement .nested) else pure none
  return .conditional test consequent alternate (← spanFrom start)

/-- The test of a case with the word before it; the default case has no test. -/
def caseTest (read : Reader) : Production (Option Expression) := do
  if ← eatWord .caseWord then some <$> allowingIn (expression read)
  else if ← eatWord .defaultWord then return none
  else failHere (.expected "\x7d")

/-- One further case of a switch. -/
def switchCase (read : Reader) : Production (Option SwitchCase) := do
  let start ← position
  if ← atMark .rightBrace then return none
  else
    let test ← caseTest read
    let _ ← expectMark .colon
    let statements ← statementList read
    return some (.mk test statements (← spanFrom start))

def switchStatement (read : Reader) : Production Statement := do
  let start ← position
  skip
  let discriminant ← condition read
  let _ ← expectMark .leftBrace
  let cases ← collect (switchCase read)
  let _ ← expectMark .rightBrace
  return .switch discriminant cases (← spanFrom start)

/-- A catch clause; its first word stands under the cursor. -/
def catchClause (read : Reader) : Production CatchClause := do
  let word ← advance
  let gapStart : Position := ⟨word.span.line, word.span.column + word.span.length, word.span.stop⟩
  let gap := Span.between gapStart (← current).span.offset
  let target ←
    if ← eatMark .leftParen then
      let target ← bindingTarget read
      let _ ← expectMark .rightParen
      pure (some target)
    else pure none
  let body ← block read
  return .mk target gap body (← spanFrom word.start)

def tryStatement (read : Reader) : Production Statement := do
  let start ← position
  skip
  let body ← block read
  let handler ← if ← atWord .catchWord then some <$> catchClause read else pure none
  let finalizer ← if ← eatWord .finallyWord then some <$> block read else pure none
  if handler.isNone && finalizer.isNone then failHere (.expected "catch")
  return .try body handler finalizer (← spanFrom start)

/-! ## Jumps -/

/-- The label of a jump, if it has one on its line. -/
def jumpLabel : Production (Option Identifier) := do
  let token ← current
  if token.newlineBefore then return none
  else match token.kind with
    | .identifier _ => some <$> bindingIdentifier
    | .privateName _ => failHere .privateNameMisplaced
    | _ => return none

/-- A jump to a label or out of the innermost loop. -/
def jump (make : Option Identifier → Span → Statement) : Production Statement := do
  let start ← position
  skip
  let label ← jumpLabel
  endStatement
  return make label (← spanFrom start)

/-- Whether a statement ends before the token without a semicolon. -/
def endsOperand (token : Token) : Bool :=
  token.newlineBefore || token.isMark .semicolon || token.isMark .rightBrace || token.isEnd

def returnStatement (read : Reader) : Production Statement := do
  let start ← position
  skip
  let argument ← if endsOperand (← current) then pure none else some <$> expression read
  endStatement
  return .return argument (← spanFrom start)

def throwStatement (read : Reader) : Production Statement := do
  let start ← position
  skip
  if endsOperand (← current) then failHere .throwWithoutValue
  let argument ← expression read
  endStatement
  return .throw argument (← spanFrom start)

/-! ## Other statements -/

def withStatement (read : Reader) : Production Statement := do
  let start ← position
  skip
  let object ← condition read
  let body ← read (.statement .nested)
  return .with object body (← spanFrom start)

def debuggerStatement : Production Statement := do
  let start ← position
  skip
  endStatement
  return .debugger (← spanFrom start)

def emptyStatement : Production Statement := do
  let start ← position
  skip
  return .empty (← spanFrom start)

def expressionStatement (read : Reader) : Production Statement := do
  let start ← position
  let value ← expression read
  endStatement
  return .expression value (← spanFrom start)

def labeledStatement (read : Reader) : Production Statement := do
  let start ← position
  let label ← bindingIdentifier
  let _ ← expectMark .colon
  let body ← read (.statement .nested)
  return .labeled label body (← spanFrom start)

/-- What a name can start: a declaration with `let`, an asynchronous function, a label or an
expression. -/
def identifierStatement (read : Reader) (place : Place) (name : String) : Production Statement := do
  let start ← position
  let next ← peek
  if name == "let" && startsLetTarget next then
    checkPlace place
    declarationStatement read .letWord
  else if name == "async" && next.isWord .functionWord && !next.newlineBefore then
    checkPlace place
    skip
    .function <$> functionDeclaration read true start false
  else if next.isMark .colon then labeledStatement read
  else expressionStatement read

/-- What a reserved word can start. -/
def keywordStatement (read : Reader) (place : Place) (word : Keyword) : Production Statement := do
  match word with
  | .varWord => declarationStatement read .var
  | .constWord =>
    checkPlace place
    declarationStatement read .const
  | .ifWord => ifStatement read
  | .forWord => forStatement read
  | .whileWord => whileStatement read
  | .doWord => doStatement read
  | .continueWord => jump .continue
  | .breakWord => jump .break
  | .returnWord => returnStatement read
  | .withWord => withStatement read
  | .switchWord => switchStatement read
  | .throwWord => throwStatement read
  | .tryWord => tryStatement read
  | .debuggerWord => debuggerStatement
  | .functionWord => .function <$> functionDeclaration read false (← position) false
  | .classWord =>
    checkPlace place
    .classDeclaration <$> classDefinition read false
  | .importWord =>
    let next ← peek
    if place == .topLevel && !(next.isMark .leftParen || next.isMark .dot) then importDeclaration
    else expressionStatement read
  | .exportWord =>
    if place == .topLevel then exportDeclaration read else expressionStatement read
  | _ => expressionStatement read

/-- A statement of any kind. -/
def statement (read : Reader) (place : Place) : Production Statement := do
  let token ← current
  match token.kind with
  | .punctuator .leftBrace => .block <$> block read
  | .punctuator .semicolon => emptyStatement
  | .keyword word => keywordStatement read place word
  | .identifier name =>
    if token.escaped then expressionStatement read else identifierStatement read place name
  | _ => expressionStatement read

/-! ## The whole grammar -/

/-- All nonterminals, nested in each other at most `depth` times. -/
def read : (depth : Nat) → Reader
  | 0, _ => failHere .primaryExpressionExpected
  | depth + 1, .statement place => statement (read depth) place
  | depth + 1, .assignment => assignment (read depth)
  | depth + 1, .unary => unary (read depth)
  | depth + 1, .leftHandSide => leftHandSide (read depth)
  | depth + 1, .construction => construction (read depth)
  | depth + 1, .binding => bindingTarget (read depth)

end Grammar

end EcmaScript
