import EcmaScript.Grammar.Basic

/-!
# Recursion of the grammar

The grammar is recursive through a handful of nonterminals. A production that needs one of them
takes a `Reader`, which reads every nonterminal one level down; the levels are tied together where
all productions are known.

## Contents

* `Nonterminal`, `Reader`: what the grammar recurs through.
* `collect`: a production repeated while it gives something.
* `expression`: expressions joined by commas.
* `block`: statements between braces, with recovery from failures.
-/

namespace EcmaScript

namespace Grammar

/-- Where a statement stands; declarations are restricted in nested places. -/
inductive Place where
  /-- Among the statements of the script, the only place for imports and exports. -/
  | topLevel
  /-- Among the statements of a block, a function body or a case. -/
  | list
  /-- The body of a conditional, a loop, a `with` or a label. -/
  | nested
  deriving DecidableEq, Repr, Inhabited

/-- The parts of the grammar that contain themselves. -/
inductive Nonterminal where
  | statement (place : Place)
  /-- An expression without commas. -/
  | assignment
  /-- An operand of a binary operator. -/
  | unary
  /-- An operand with its accesses and calls. -/
  | leftHandSide
  /-- What `new` starts. -/
  | construction
  /-- A name or a pattern that is bound. -/
  | binding
  deriving DecidableEq, Repr, Inhabited

/-- What a nonterminal gives. -/
@[reducible] def Nonterminal.Result : Nonterminal → Type
  | statement _ => Statement
  | _ => Expression

/-- How the nonterminals are read one level down. -/
abbrev Reader := (n : Nonterminal) → Production n.Result

/-- The part of `collect` that has `limit` rounds left and has gathered `items`, last one first. -/
def collectFrom {α : Type} (step : Production (Option α)) : Nat → List α → Production (List α)
  | 0, items => return items.reverse
  | limit + 1, items => do
    match ← step with
    | some item => collectFrom step limit (item :: items)
    | none => return items.reverse

/-- Repeats a production while it gives something. A step that gives something reads a token, so
there are at most as many as tokens left, and these are at most one more than the characters that
the lexer has not read. -/
def collect {α : Type} (step : Production (Option α)) : Production (List α) := do
  collectFrom step ((← get).lexer.rest.length + 2) []

/-! ## Expressions -/

/-- One further expression behind a comma. -/
def commaAssignment (read : Reader) : Production (Option Expression) := do
  if ← eatMark .comma then some <$> read .assignment else return none

/-- Expressions joined by commas. -/
def expression (read : Reader) : Production Expression := do
  let first ← read .assignment
  if ← atMark .comma then
    let others ← collect (commaAssignment read)
    return .sequence (first :: others) (← spanFrom first.start)
  else return first

/-- An expression in parentheses after a word such as `if`. -/
def condition (read : Reader) : Production Expression := do
  let _ ← expectMark .leftParen
  let test ← allowingIn (expression read)
  let _ ← expectMark .rightParen
  return test

/-! ## Recovery -/

/-- Whether a token at the start of a line is a likely start of a statement. -/
def startsStatement (token : Token) : Bool :=
  match token.kind with
  | .keyword word =>
    [Keyword.varWord, .constWord, .functionWord, .classWord, .ifWord, .forWord, .whileWord, .doWord,
      .returnWord, .tryWord, .switchWord, .throwWord].contains word
  | _ => false

/-- The part of `synchronize` that reads at most `limit` tokens. -/
def synchronizeFrom (topLevel : Bool) (start : Nat) : Nat → Production Unit
  | 0 => return
  | limit + 1 => do
    let token ← current
    if token.isEnd then return
    else if token.isMark .semicolon then skip
    else if token.isMark .rightBrace then
      if topLevel || token.span.offset == start then skip else return
    else
      skip
      let next ← current
      if next.newlineBefore && startsStatement next then return
      else synchronizeFrom topLevel start limit

/-- Reads on to a likely end of a statement: past a semicolon, to a closing brace, or to a line
that starts like a statement. A closing brace that ends an enclosing block is left alone, unless
nothing was read before it. -/
def synchronize (topLevel : Bool) : Production Unit := do
  let s ← get
  synchronizeFrom topLevel s.current.span.offset (s.lexer.rest.length + 2)

/-! ## Blocks -/

/-- One further statement of a list, which ends at a closing brace and before a case. A failure
leaves a placeholder when the parse is to go on. -/
def listStatement (read : Reader) : Production (Option Statement) := do
  let token ← current
  if token.isMark .rightBrace || token.isEnd || token.isWord .caseWord ||
      token.isWord .defaultWord then
    return none
  else
    try some <$> read (.statement .list)
    catch failure =>
      if (← get).options.keepGoing then
        note (·.failure failure)
        synchronize false
        return some (.error (← spanFrom token.start))
      else throw failure

def statementList (read : Reader) : Production (List Statement) := collect (listStatement read)

def block (read : Reader) : Production Block := do
  let start ← position
  let _ ← expectMark .leftBrace
  let statements ← statementList read
  let _ ← expectMark .rightBrace
  return .mk statements (← spanFrom start)

end Grammar

end EcmaScript
