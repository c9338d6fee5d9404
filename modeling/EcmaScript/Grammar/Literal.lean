import EcmaScript.Grammar.Reader

/-!
# Array, object and template literals

Array and object literals double as patterns, also where a name is bound.

## Contents

* `template`: a template literal.
* `arrayLiteral`, `arguments`: lists of expressions.
* `propertyKey`, `methodModifiers`: what stands before the value or body of a property.
* `noteTrailingComma`: a comma before the closing parenthesis of a list.
-/

namespace EcmaScript

namespace Grammar

/-! ## Templates -/

/-- A piece of text under the cursor, which the grammar has asked for; tells whether it is the
last one. -/
def templateText : Production (TemplateText × Bool) := do
  let token ← advance
  match token.kind with
  | .template part => return (⟨part.cooked, part.raw, part.problems, token.span⟩, part.tail)
  | _ => fail (.expected "\x60") token.start

/-- One further substitution of a template together with the text behind it. -/
def substitution (read : Reader) : Production (Expression × TemplateText × Bool) := do
  let value ← allowingIn (expression read)
  unless ← atMark .rightBrace do failHere .unclosedSubstitution
  rescan Lexer.rescanTemplate
  let (text, tail) ← templateText
  return (value, text, tail)

/-- The part of `template` that has `limit` rounds left and has gathered texts and substitutions,
last ones first. -/
def templateRest (read : Reader) :
    Nat → List TemplateText → List Expression → Production (List TemplateText × List Expression)
  | 0, texts, values => return (texts.reverse, values.reverse)
  | limit + 1, texts, values => do
    let (value, text, tail) ← substitution read
    if tail then return ((text :: texts).reverse, (value :: values).reverse)
    else templateRest read limit (text :: texts) (value :: values)

/-- A template literal, whose first piece of text stands under the cursor: its texts, its
substitutions and its region. -/
def template (read : Reader) : Production (List TemplateText × List Expression × Span) := do
  let start ← position
  let (first, tail) ← templateText
  let (texts, values) ←
    if tail then pure ([first], [])
    else templateRest read ((← get).lexer.rest.length + 2) [first] []
  return (texts, values, ← spanFrom start)

/-! ## Lists -/

/-- Records a comma before a closing parenthesis, which older editions do not have. -/
def noteTrailingComma (comma : Position) (problem : Problem) : Production Unit := do
  note (·.record .trailingCommaInParamList comma)
  unless Edition.es2017 ≤ (← get).options.edition do note (·.error comma problem)

/-- An expression or a spread. -/
def spreadable (read : Reader) : Production Expression := do
  let start ← position
  if ← eatMark .ellipsis then
    let argument ← allowingIn (read .assignment)
    return .spread argument (← spanFrom start)
  else allowingIn (read .assignment)

/-- What `separatedItems` has found out about a list so far. -/
structure ItemList where
  /-- The items, last one first. -/
  reversed : List Expression := []
  /-- The comma behind the last item. -/
  trailingComma : Option Position := none

/-- The items of a list up to its closing parenthesis, which is not read; at most `limit`. -/
def separatedItems (item : Production Expression) : Nat → ItemList → Production ItemList
  | 0, list => return list
  | limit + 1, list => do
    if ← atMark .rightParen then return list
    else
      let list := { list with reversed := (← item) :: list.reversed }
      if ← atMark .rightParen then return list
      else
        let comma ← expectMark .comma
        if ← atMark .rightParen then return { list with trailingComma := some comma.start }
        else separatedItems item limit list

/-- The items of a list, the position of the comma behind the last one, and the region with its
parentheses. -/
def parenthesizedItems (read : Reader) :
    Production (List Expression × Option Position × Span) := do
  let start ← position
  let _ ← expectMark .leftParen
  let list ← separatedItems (spreadable read) ((← get).lexer.rest.length + 2) {}
  let _ ← expectMark .rightParen
  return (list.reversed.reverse, list.trailingComma, ← spanFrom start)

/-- The arguments of a call: the items, whether a comma follows the last one, and the region. -/
def arguments (read : Reader) : Production (List Expression × Bool × Span) := do
  let start ← position
  let _ ← expectMark .leftParen
  let list ← separatedItems (spreadable read) ((← get).lexer.rest.length + 2) {}
  if let some comma := list.trailingComma then noteTrailingComma comma .trailingCommaInArguments
  let _ ← expectMark .rightParen
  return (list.reversed.reverse, list.trailingComma.isSome, ← spanFrom start)

/-- One further entry of an array literal, and whether a comma stands between it and the closing
bracket. -/
def arrayEntry (read : Reader) : Production (Option (ArrayElement × Bool)) := do
  let token ← current
  if token.isMark .rightBracket then return none
  else if token.isMark .comma then
    skip
    return some (.hole (.emptyAt token.start), ← atMark .rightBracket)
  else
    let element ←
      if ← eatMark .ellipsis then
        let argument ← read .assignment
        pure (.spread argument (← spanFrom token.start))
      else .item <$> read .assignment
    if ← atMark .rightBracket then return some (element, false)
    else
      let _ ← expectMark .comma
      return some (element, ← atMark .rightBracket)

/-- An array literal or pattern. -/
def arrayLiteral (read : Reader) : Production Expression := do
  let start ← position
  skip
  let entries ← collect (arrayEntry read)
  let _ ← expectMark .rightBracket
  return .array (entries.map (·.1)) (entries.any (·.2)) (← spanFrom start)

/-! ## Property names -/

/-- The name of a property or class member. -/
def propertyKey (read : Reader) : Production PropertyKey := do
  let token ← current
  match token.kind with
  | .string value =>
    skip
    return .string ⟨value, token.span⟩
  | .number value =>
    skip
    return .number value token.span
  | .bigint value =>
    skip
    return .bigint value token.span
  | .privateName name =>
    skip
    return .hidden ⟨name, token.span⟩
  | .punctuator .leftBracket =>
    skip
    let key ← allowingIn (read .assignment)
    let _ ← expectMark .rightBracket
    return .computed key (← spanFrom token.start)
  | _ => .name <$> identifierName

/-- Tokens that end the name of a property, so that a modifier before them is the name itself. -/
def endsPropertyName (token : Token) : Bool :=
  match token.kind with
  | .endOfText => true
  | .punctuator mark =>
    [Punctuator.leftParen, .assign, .semicolon, .rightBrace, .comma, .colon].contains mark
  | _ => false

/-- What the modifiers before the name of a method say. -/
structure MethodModifiers where
  kind : FunctionKind := .method
  isAsync : Bool := false
  isGenerator : Bool := false

/-- Whether only a method or an accessor can follow. -/
def MethodModifiers.isMethod (m : MethodModifiers) : Bool :=
  m.kind != .method || m.isAsync || m.isGenerator

/-- Reads `get` or `set` in front of the name of an accessor. -/
def accessorKind : Production FunctionKind := do
  let kind ←
    if ← atName "get" then pure FunctionKind.getter
    else if ← atName "set" then pure FunctionKind.setter
    else return .method
  if endsPropertyName (← peek) then return .method
  else
    skip
    return kind

/-- The words and the star in front of the name of a property. A word right before the end of the
name is the name itself. -/
def methodModifiers : Production MethodModifiers := do
  let isAsync ←
    if ← atName "async" then
      let next ← peek
      if !next.newlineBefore && !endsPropertyName next then
        skip
        pure true
      else pure false
    else pure false
  let isGenerator ← eatMark .star
  let kind ← if isAsync || isGenerator then pure .method else accessorKind
  return ⟨kind, isAsync, isGenerator⟩

end Grammar

end EcmaScript
