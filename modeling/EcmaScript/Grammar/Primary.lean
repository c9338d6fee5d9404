import EcmaScript.Grammar.Function

/-!
# Primary expressions

Names, literals, parentheses and what a reserved word can start. An arrow function is recognised
here: what stands in parentheses is read as a list of expressions, which an arrow behind it turns
into parameters.
-/

namespace EcmaScript

namespace Grammar

/-- Words that are no names in an expression, in strict code or not. -/
def futureReservedWords : List String :=
  ["implements", "interface", "package", "private", "protected", "public"]

/-- Whether a name cannot be referred to. -/
def isReservedReference (strict : Bool) (context : Context) (name : String) : Bool :=
  futureReservedWords.contains name || (strict && strictReservedWords.contains name) ||
    (name == "yield" && context.inGenerator)

/-- The rest of an arrow function behind its parameters; the arrow has to follow on the same line. -/
def arrowOnLine (read : Reader) (params : Parameters) (isAsync : Bool) (start : Position) :
    Production Expression := do
  if (← current).newlineBefore then failHere .newlineBeforeArrow
  arrowBody read params isAsync start

/-- One name as a list of parameters. -/
def Parameters.single (name : Identifier) : Parameters := ⟨[.identifier name], false, name.span⟩

/-! ## Names -/

/-- A name, which is the parameter of an arrow function if an arrow follows. -/
def reference (read : Reader) (name : String) (token : Token) : Production Expression := do
  if isReservedReference (← isStrict) (← context) name then
    fail .primaryExpressionExpected token.start
  skip
  if ← atMark .arrow then arrowOnLine read (.single ⟨name, token.span⟩) false token.start
  else return .identifier ⟨name, token.span⟩

/-- An asynchronous arrow function with one parameter, which stands behind the word `async`. -/
def asyncArrow (read : Reader) (start : Position) : Production Expression := do
  skip
  let param ← within ({ · with inAsync := true }) bindingIdentifier
  unless ← atMark .arrow do failHere (.expected "=>")
  arrowBody read (.single param) true start

/-- A call of the function `async`, or the parameters of an asynchronous arrow function. -/
def asyncCallOrArrow (read : Reader) (asyncSpan : Span) : Production Expression := do
  skip
  let (items, trailingComma, span) ← within ({ · with inAsync := true }) (arguments read)
  if ← atMark .arrow then arrowOnLine read ⟨items, trailingComma, span⟩ true asyncSpan.start
  else
    return .call (.identifier ⟨"async", asyncSpan⟩) items trailingComma false
      (← spanFrom asyncSpan.start)

/-- What a name can start. -/
def identifierExpression (read : Reader) (name : String) : Production Expression := do
  let token ← current
  if !token.escaped && name == "async" then
    let next ← peek
    if next.newlineBefore then reference read name token
    else if next.isWord .functionWord then
      skip
      .function <$> functionExpression read true token.start
    else match next.kind with
      | .identifier _ => asyncArrow read token.start
      | .punctuator .leftParen => asyncCallOrArrow read token.span
      | _ => reference read name token
  else reference read name token

/-! ## Parentheses -/

/-- Whether an item of a list is a spread. -/
def isSpread : Expression → Bool
  | .spread .. => true
  | _ => false

/-- The expression that a list of items in parentheses stands for, if it stands for one. -/
def parenthesized? (items : List Expression) : Option Expression :=
  match items with
  | [] => none
  | first :: others =>
    if items.any isSpread then none
    else match others.getLast? with
      | none => some first
      | some last => some (.sequence items (.between first.start last.span.stop))

/-- An expression in parentheses, or the parameters of an arrow function. -/
def parenthesizedOrArrow (read : Reader) : Production Expression := do
  let start ← position
  let (items, trailingComma, span) ← parenthesizedItems read
  if ← atMark .arrow then
    if (← current).newlineBefore then failHere .newlineBeforeArrow
    if let some comma := trailingComma then noteTrailingComma comma .trailingCommaInParameters
    arrowBody read ⟨items, trailingComma.isSome, span⟩ false start
  else
    match trailingComma, parenthesized? items with
    | none, some inner => return .paren inner span
    | _, _ => fail .invalidParenthesized start

/-! ## Reserved words -/

/-- What `import` starts inside an expression. -/
def importExpression (read : Reader) (start : Position) : Production Expression := do
  skip
  if ← eatMark .dot then
    let _ ← expectName "meta"
    return .importMeta (← spanFrom start)
  else
    let _ ← expectMark .leftParen
    let argument ← allowingIn (read .assignment)
    let _ ← expectMark .rightParen
    return .dynamicImport argument (← spanFrom start)

/-- The word `super`, which an access or a call has to follow. -/
def superReference : Production Expression := do
  let token ← advance
  let next ← current
  if next.isMark .leftParen || next.isMark .dot || next.isMark .leftBracket ||
      next.isMark .optionalChain then
    return .super token.span
  else failHere (.expected "(")

/-- What a reserved word can start. -/
def keywordExpression (read : Reader) (word : Keyword) (token : Token) :
    Production Expression := do
  match word with
  | .thisWord =>
    skip
    return .this token.span
  | .nullWord =>
    skip
    return .null token.span
  | .trueWord =>
    skip
    return .boolean true token.span
  | .falseWord =>
    skip
    return .boolean false token.span
  | .functionWord => .function <$> functionExpression read false token.start
  | .classWord => .classExpression <$> classDefinition read true
  | .superWord => superReference
  | .importWord => importExpression read token.start
  | _ => fail .primaryExpressionExpected token.start

/-! ## All primary expressions -/

/-- The slash under the cursor as the start of a regular expression. -/
def regExpLiteral : Production Expression := do
  let start ← position
  rescan Lexer.rescanRegExp
  let token ← advance
  match token.kind with
  | .regexp pattern flags => return .regexp pattern flags token.span
  | _ => fail .primaryExpressionExpected start

/-- A private name, which only the membership test can follow. -/
def privateOperand (name : String) (token : Token) : Production Expression := do
  if (← context).noIn || !(← peek).isWord .inWord then fail .privateNameMisplaced token.start
  skip
  return .privateName ⟨name, token.span⟩

/-- An operand without operators, accesses and calls. -/
def primary (read : Reader) : Production Expression := do
  let token ← current
  match token.kind with
  | .identifier name => identifierExpression read name
  | .number value =>
    skip
    return .number value token.span
  | .bigint value =>
    skip
    return .bigint value token.span
  | .string value =>
    skip
    return .string ⟨value, token.span⟩
  | .template _ =>
    let (texts, values, span) ← template read
    return .template texts values span
  | .punctuator .slash => regExpLiteral
  | .punctuator .slashAssign => regExpLiteral
  | .punctuator .leftParen => parenthesizedOrArrow read
  | .punctuator .leftBracket => arrayLiteral read
  | .punctuator .leftBrace => objectLiteral read
  | .keyword word => keywordExpression read word token
  | .privateName name => privateOperand name token
  | _ => fail .primaryExpressionExpected token.start

end Grammar

end EcmaScript
