import EcmaScript.Grammar.Literal

/-!
# Functions, object literals and classes

## Contents

* `parameters`, `functionBody`: the two halves of every function but an arrow.
* `functionDeclaration`, `functionExpression`, `method`, `arrowBody`: functions by kind.
* `objectLiteral`, `bindingTarget`: literals with methods, and what can be bound.
* `classDefinition`: classes.
-/

namespace EcmaScript

namespace Grammar

/-! ## Functions -/

/-- A rest parameter; its ellipsis has been read. The flag says whether the list goes on. -/
def restParameter (read : Reader) (start : Position) : Production (Expression × Bool) := do
  let target ← read .binding
  if ← atMark .assign then failHere .defaultAfterRest
  let rest := Expression.spread target (← spanFrom start)
  if ← atMark .comma then
    let comma ← advance
    if ← atMark .rightParen then fail .commaAfterRest comma.start
    return (rest, true)
  else return (rest, false)

/-- A parameter with the default it may have. -/
def plainParameter (read : Reader) (start : Position) : Production Expression := do
  let target ← read .binding
  if ← eatMark .assign then
    let value ← read .assignment
    return .assignment .assign target value (← spanFrom start)
  else return target

/-- The parameters up to the closing parenthesis, which is not read; at most `limit`. -/
def parameterItems (read : Reader) : Nat → ItemList → Production ItemList
  | 0, list => return list
  | limit + 1, list => do
    let token ← current
    if token.isMark .rightParen then return list
    else if ← eatMark .ellipsis then
      let (rest, more) ← restParameter read token.start
      let list := { list with reversed := rest :: list.reversed }
      if more then parameterItems read limit list else return list
    else
      let list := { list with reversed := (← plainParameter read token.start) :: list.reversed }
      if ← atMark .rightParen then return list
      else
        let comma ← expectMark .comma
        if ← atMark .comma then failHere (.expected ")")
        if ← atMark .rightParen then
          noteTrailingComma comma.start .trailingCommaInParameters
          return { list with trailingComma := some comma.start }
        else parameterItems read limit list

/-- Parameters with the region of their parentheses. -/
structure Parameters where
  items : List Expression
  trailingComma : Bool
  span : Span

/-- The parameters of a function that is not an arrow, under the rules of the function. -/
def parameters (read : Reader) (isAsync isGenerator : Bool) : Production Parameters :=
  insideFunction isAsync isGenerator <| allowingIn do
    let start ← position
    let _ ← expectMark .leftParen
    let list ← parameterItems read ((← get).lexer.rest.length + 2) {}
    let _ ← expectMark .rightParen
    return ⟨list.reversed.reverse, list.trailingComma.isSome, ← spanFrom start⟩

/-- The block of a function, under the rules of the function. -/
def functionBody (read : Reader) (isAsync isGenerator : Bool) : Production Block :=
  insideFunction isAsync isGenerator <| allowingIn (block read)

/-- Parameters and block of a function whose other parts are known. -/
def functionRest (read : Reader) (name : Option Identifier) (kind : FunctionKind)
    (isAsync isGenerator : Bool) (start : Position) : Production Function := do
  let params ← parameters read isAsync isGenerator
  let body ← functionBody read isAsync isGenerator
  return .mk name params.items params.trailingComma params.span (.block body) kind isAsync
    isGenerator (← spanFrom start)

/-- A function declaration, from its word `function` on; it starts at `start`, where `async` may
stand. -/
def functionDeclaration (read : Reader) (isAsync : Bool) (start : Position)
    (anonymousAllowed : Bool) : Production Function := do
  let _ ← expectWord .functionWord
  let isGenerator ← eatMark .star
  let name ←
    if anonymousAllowed && (← atMark .leftParen) then pure none else some <$> bindingIdentifier
  functionRest read name .declaration isAsync isGenerator start

/-- A function expression; its name obeys the rules of the function itself. -/
def functionExpression (read : Reader) (isAsync : Bool) (start : Position) :
    Production Function := do
  let _ ← expectWord .functionWord
  let isGenerator ← eatMark .star
  let name ←
    if ← atMark .leftParen then pure none
    else some <$> insideFunction isAsync isGenerator bindingIdentifier
  functionRest read name .expression isAsync isGenerator start

/-- Parameters and block of a method or accessor. -/
def method (read : Reader) (modifiers : MethodModifiers) : Production Function := do
  functionRest read none modifiers.kind modifiers.isAsync modifiers.isGenerator (← position)

/-- The rest of an arrow function whose arrow stands under the cursor. -/
def arrowBody (read : Reader) (params : Parameters) (isAsync : Bool) (start : Position) :
    Production Expression := do
  let _ ← expectMark .arrow
  let body ← insideFunction isAsync false do
    if ← atMark .leftBrace then .block <$> allowingIn (block read)
    else .expression <$> read .assignment
  return .function (.mk none params.items params.trailingComma params.span body .arrow isAsync false
    (← spanFrom start))

/-! ## Object literals -/

/-- A property of an object literal or pattern. -/
def objectProperty (read : Reader) : Production Property := do
  let start ← position
  if ← eatMark .ellipsis then
    let argument ← read .assignment
    return .spread argument (← spanFrom start)
  else
    let modifiers ← methodModifiers
    let key ← propertyKey read
    if let .hidden name := key then fail .privateNameMisplaced name.span.start
    if (← atMark .leftParen) || modifiers.isMethod then
      let function ← method read modifiers
      return .method key function (← spanFrom start)
    else if ← eatMark .colon then
      let value ← read .assignment
      return .keyValue key value (← spanFrom start)
    else match key with
      | .name name =>
        let default ←
          if ← eatMark .assign then some <$> allowingIn (read .assignment) else pure none
        return .shorthand name default (← spanFrom start)
      | _ => failHere (.expected ":")

/-- One further property, and whether a comma stands between it and the closing brace. -/
def objectEntry (read : Reader) : Production (Option (Property × Bool)) := do
  if ← atMark .rightBrace then return none
  else
    let property ← objectProperty read
    if ← atMark .rightBrace then return some (property, false)
    else
      let _ ← expectMark .comma
      return some (property, ← atMark .rightBrace)

/-- An object literal or pattern. -/
def objectLiteral (read : Reader) : Production Expression := do
  let start ← position
  skip
  let entries ← collect (objectEntry read)
  let _ ← expectMark .rightBrace
  return .object (entries.map (·.1)) (entries.any (·.2)) (← spanFrom start)

/-- A name that is bound, or a pattern in the form of a literal. -/
def bindingTarget (read : Reader) : Production Expression := do
  if ← atMark .leftBracket then allowingIn (arrayLiteral read)
  else if ← atMark .leftBrace then allowingIn (objectLiteral read)
  else .identifier <$> bindingIdentifier

/-! ## Classes -/

/-- A method, an accessor or a field, behind the word `static` if it has one. -/
def classElement (read : Reader) (isStatic : Bool) (start : Position) :
    Production ClassMember := do
  let modifiers ← methodModifiers
  let key ← propertyKey read
  if ← atMark .leftParen then
    let function ← method read modifiers
    return .method key function isStatic (← spanFrom start)
  else
    if modifiers.isMethod then failHere (.expected "(")
    let value ← if ← eatMark .assign then some <$> allowingIn (read .assignment) else pure none
    endStatement
    return .field key value isStatic (← spanFrom start)

def classMember (read : Reader) : Production ClassMember := do
  let start ← position
  if ← atName "static" then
    let next ← peek
    if next.isMark .leftBrace then
      skip
      return .staticBlock (← allowingIn (block read))
    else if endsPropertyName next then classElement read false start
    else
      skip
      classElement read true start
  else classElement read false start

/-- One further entry of a class body: a member, or a semicolon that stands for nothing. -/
def classEntry (read : Reader) : Production (Option (Option ClassMember)) := do
  let token ← current
  if token.isMark .rightBrace then return none
  else if token.isEnd then failHere (.expected "\x7d")
  else if ← eatMark .semicolon then return some none
  else some <$> some <$> classMember read

/-- The name of a class, which may be missing where `anonymousAllowed`. -/
def className (anonymousAllowed : Bool) : Production (Option Identifier) := do
  let token ← current
  match token.kind with
  | .identifier _ => some <$> bindingIdentifier
  | .privateName _ => failHere .privateNameMisplaced
  | _ => if anonymousAllowed then return none else failHere .identifierExpected

/-- A class; its first word stands under the cursor. -/
def classDefinition (read : Reader) (anonymousAllowed : Bool) : Production ClassDefinition := do
  let start ← position
  let _ ← expectWord .classWord
  let name ← className anonymousAllowed
  let heritage ← if ← eatWord .extendsWord then some <$> read .leftHandSide else pure none
  let bodyStart ← position
  let _ ← expectMark .leftBrace
  let members ← collect (classEntry read)
  let _ ← expectMark .rightBrace
  return .mk name heritage (members.filterMap id) (← spanFrom bodyStart) (← spanFrom start)

end Grammar

end EcmaScript
