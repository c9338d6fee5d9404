import EcmaScript.Concrete.Region
import EcmaScript.Failure
import EcmaScript.Journal
import EcmaScript.Lexer.Next
import EcmaScript.Options

/-!
# Productions and the tokens they read

A `Production` reads tokens and gives a part of the concrete tree, or fails. What it has read and
noted survives a failure, so that whoever catches the failure can go on from there. The context of a
production (whether `yield` and `await` are operators, whether `in` is one) is set for a part of it
by `within` and by nothing else.

## Contents

* `Grammar.Context`, `Grammar.State`, `Production`.
* `within`, `allowingIn`: productions under another context.
* `advance`, `peek`: the cursor.
* `expectMark`, `expectWord`, `expectName`, `endStatement`: tokens that have to follow.
* `bindingIdentifier`, `identifierName`: names.
-/

namespace EcmaScript

namespace Grammar

/-- What the words `yield`, `await` and `in` mean at a place. -/
structure Context where
  /-- Whether the place belongs to a generator. -/
  inGenerator : Bool := false
  /-- Whether the place belongs to an asynchronous function. -/
  inAsync : Bool := false
  /-- Whether the place is the first part of the head of a loop, where `in` is no operator. -/
  noIn : Bool := false
  deriving DecidableEq, Repr, Inhabited

/-- What a production works on. -/
structure State where
  lexer : Lexer
  /-- The token under the cursor, which the lexer has passed. -/
  current : Token
  /-- Where the last token that was read ends. -/
  lastStop : Nat
  context : Context
  journal : Journal
  options : Options
  deriving Repr, Inhabited

end Grammar

/-- A reader of a part of the grammar. -/
abbrev Production (α : Type) := EStateM Failure Grammar.State α

namespace Grammar

/-! ## Context -/

/-- Runs a production under a changed context, which ends with it whether it fails or not. -/
def within {α : Type} (change : Context → Context) (p : Production α) : Production α := fun s =>
  match p { s with context := change s.context } with
  | .ok a t => .ok a { t with context := s.context }
  | .error e t => .error e { t with context := s.context }

/-- Runs a production with `in` as an operator. -/
def allowingIn {α : Type} (p : Production α) : Production α := within ({ · with noIn := false }) p

/-- Runs a production under the rules of a function of the given kind. -/
def insideFunction {α : Type} (isAsync isGenerator : Bool) (p : Production α) : Production α :=
  within ({ · with inAsync := isAsync, inGenerator := isGenerator }) p

def context : Production Context := return (← get).context

/-- Whether the text is strict code. -/
def isStrict : Production Bool := return (← get).options.isStrict

/-! ## Cursor -/

/-- The token under the cursor. -/
def current : Production Token := return (← get).current

/-- Reads the token under the cursor. -/
def advance : Production Token := fun
  | ⟨lexer, current, _, context, journal, options⟩ =>
    match lexer.nextToken with
    | (next, lexer) => .ok current ⟨lexer, next, current.span.stop, context, journal, options⟩

/-- Reads the token under the cursor and forgets it. -/
def skip : Production Unit := discard advance

/-- The token after the one under the cursor, to which the lexer reads ahead. -/
def peek : Production Token := fun s =>
  match s.lexer.lookAhead with
  | (token, lexer) => .ok token { s with lexer := lexer }

/-- The start of the token under the cursor. -/
def position : Production Position := return (← get).current.start

/-- The region from `start` to the end of the last token that was read. -/
def spanFrom (start : Position) : Production Span := return Span.between start (← get).lastStop

/-- Puts another token under the cursor, which the lexer reads from the same place on. -/
def rescan (read : Lexer → Token → Token × Lexer) : Production Unit := modify fun s =>
  match read s.lexer s.current with
  | (token, lexer) => { s with lexer := lexer, current := token }

def fail {α : Type} (problem : Problem) (position : Position) : Production α :=
  throw (.unexpected problem.message position)

/-- Fails at the token under the cursor. -/
def failHere {α : Type} (problem : Problem) : Production α := do fail problem (← position)

/-- Writes into the journal. -/
def note (f : Journal → Journal) : Production Unit :=
  modify fun s => { s with journal := f s.journal }

/-! ## Tokens -/

def atMark (p : Punctuator) : Production Bool := return (← current).isMark p

def atWord (k : Keyword) : Production Bool := return (← current).isWord k

/-- Whether the name `name`, written without escapes, stands under the cursor. -/
def atName (name : String) : Production Bool := do
  let token ← current
  return token.isName name && !token.escaped

def atEnd : Production Bool := return (← current).isEnd

/-- Reads the mark `p` if it stands under the cursor, and says whether it does. -/
def eatMark (p : Punctuator) : Production Bool := do
  if ← atMark p then
    skip
    return true
  else return false

def eatWord (k : Keyword) : Production Bool := do
  if ← atWord k then
    skip
    return true
  else return false

def eatName (name : String) : Production Bool := do
  if ← atName name then
    skip
    return true
  else return false

def expectMark (p : Punctuator) : Production Token := do
  if ← atMark p then advance else failHere (.expected p.spelling)

def expectWord (k : Keyword) : Production Token := do
  if ← atWord k then advance else failHere (.expected k.spelling)

def expectName (name : String) : Production Token := do
  if ← atName name then advance else failHere (.expected name)

/-- Ends a statement: by a semicolon, or where one may be left out. -/
def endStatement : Production Unit := do
  unless ← eatMark .semicolon do
    let token ← current
    unless token.newlineBefore || token.isMark .rightBrace || token.isEnd do
      failHere .semicolonExpected

/-! ## Names -/

/-- Whether a binding cannot have this name. -/
def isReservedBinding (strict : Bool) (context : Context) (name : String) : Bool :=
  (name == "yield" && (context.inGenerator || strict)) || (name == "await" && context.inAsync) ||
    (strict && strictReservedWords.contains name)

/-- The failure to find a name. -/
def failName {α : Type} (token : Token) : Production α :=
  match token.kind with
  | .privateName _ => fail .privateNameMisplaced token.start
  | _ => fail .identifierExpected token.start

/-- A name that is bound here. -/
def bindingIdentifier : Production Identifier := do
  let token ← current
  match token.kind with
  | .identifier name =>
    if isReservedBinding (← isStrict) (← context) name then fail .identifierExpected token.start
    else
      skip
      return ⟨name, token.span⟩
  | _ => failName token

/-- A name or a reserved word. -/
def identifierName : Production Identifier := do
  let token ← current
  match token.propertyName? with
  | some name =>
    skip
    return ⟨name, token.span⟩
  | none => failName token

end Grammar

end EcmaScript
