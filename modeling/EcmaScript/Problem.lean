/-!
# Problems of a program

What the grammar and the static rules can object to, and how it is said. Problems with the spelling
of tokens are in `LexicalProblem`.
-/

namespace EcmaScript

/-- A violation of the grammar or of a static rule. -/
inductive Problem where
  -- What the grammar expects.
  /-- The token `what` does not stand here. -/
  | expected (what : String)
  | identifierExpected
  | primaryExpressionExpected
  | semicolonExpected
  | stringExpected
  /-- A reserved word where a binding needs a name. -/
  | keywordNotAllowed (word : String)
  | privateNameMisplaced
  | lexicalDeclarationMisplaced
  | throwWithoutValue
  | optionalChainInConstruction
  | optionalChainOnSuper
  | templateInOptionalChain
  | braceInOptionalChain
  | unclosedSubstitution
  | invalidParenthesized
  | newlineBeforeArrow
  /-- A coalescing operator beside a logical one without parentheses. -/
  | mixedCoalesce
  /-- A unary operator on the base of an exponentiation. -/
  | unaryBeforeExponent (operator : String)
  | yieldStarWithoutOperand
  | trailingCommaInParameters
  | trailingCommaInArguments
  -- Targets and patterns.
  | invalidAssignmentTarget
  | restNotLast
  | commaAfterRest
  | defaultAfterRest
  | defaultInObjectLiteral
  | keywordInShorthand
  | constWithoutInitializer
  | destructuringWithoutInitializer
  /-- An initial value in the head of a loop of the kind `loop`. -/
  | initializerInLoopHead (loop : String)
  | severalDeclarationsInLoopHead (loop : String)
  -- Operands.
  | invalidUpdateOperand (increment afterOperand : Bool)
  | invalidDelete
  | bigintToNumber
  | invalidRegExpFlag (flag : Char)
  -- Jumps.
  | breakOutsideLoop
  | continueOutsideLoop
  | continueLabelNotLoop
  | undefinedLabel (name : String)
  | duplicateLabel (name : String)
  | returnOutsideFunction
  | yieldOutsideGenerator
  | awaitOutsideAsync
  | forAwaitOutsideAsync
  | newTargetOutsideFunction
  -- Functions and classes.
  | yieldInParameterDefault
  | awaitInParameterDefault
  | getterParameters (count : Nat)
  | setterParameters (count : Nat)
  | setterRest
  | duplicateParameter (name : String)
  | constructorModifiers
  | duplicateConstructor
  | privateFieldUndeclared
  | privateMethodUndeclared
  | privateFieldDeleted
  -- Restrictions of the third edition.
  | trailingCommaInLiteral
  | keywordAsProperty
  | reservedIdentifier
  deriving DecidableEq, Repr, Inhabited

namespace Problem

/-- The text of a problem. -/
def message : Problem → String
  | expected what => "'" ++ what ++ "' expected"
  | identifierExpected => "'identifier' expected"
  | primaryExpressionExpected => "primary expression expected"
  | semicolonExpected => "Semi-colon expected"
  | stringExpected => "'String' expected"
  | keywordNotAllowed word => "cannot use keyword '" ++ word ++ "' here."
  | privateNameMisplaced => "Private identifiers may not be used in this context"
  | lexicalDeclarationMisplaced =>
    "Lexical declarations are only allowed at top level or inside a block."
  | throwWithoutValue => "semicolon/newline not allowed after 'throw'"
  | optionalChainInConstruction => "Optional chaining is forbidden in construction contexts."
  | optionalChainOnSuper => "Optional chaining is forbidden in super?."
  | templateInOptionalChain => "template literal cannot be used within optional chaining"
  | braceInOptionalChain => "syntax error: \x7b not allowed in optional chain"
  | unclosedSubstitution => "Expected '\x7d' after expression in template literal"
  | invalidParenthesized => "invalid parenthesized expression"
  | newlineBeforeArrow => "No newline allowed before '=>'"
  | mixedCoalesce => "Logical OR and logical AND require parentheses when used with '??'"
  | unaryBeforeExponent operator =>
    "Unary operator '" ++ operator ++ "' requires parentheses before '**'"
  | yieldStarWithoutOperand => "yield* requires an expression"
  | trailingCommaInParameters => "Invalid trailing comma in formal parameter list"
  | trailingCommaInArguments => "Invalid trailing comma in arguments list"
  | invalidAssignmentTarget => "invalid assignment target"
  | restNotLast => "A rest parameter must be last in a parameter list."
  | commaAfterRest => "A trailing comma must not follow a rest parameter."
  | defaultAfterRest => "A default value cannot be specified after '...'"
  | defaultInObjectLiteral => "Default value cannot appear at top level of an object literal."
  | keywordInShorthand => "Cannot use keyword in short object literal"
  | constWithoutInitializer => "const variables must have an initializer"
  | destructuringWithoutInitializer => "destructuring must have an initializer"
  | initializerInLoopHead loop => loop ++ " statement may not have initializer"
  | severalDeclarationsInLoopHead loop =>
    loop ++ " statement may not have more than one variable declaration"
  | invalidUpdateOperand increment afterOperand =>
    "Invalid " ++ (if afterOperand then "postfix" else "prefix") ++ " " ++
      (if increment then "increment" else "decrement") ++ " operand."
  | invalidDelete => "Invalid delete operand. Only properties can be deleted."
  | bigintToNumber => "Cannot convert a BigInt value to a number"
  | invalidRegExpFlag flag => "Invalid RegExp flag '" ++ flag.toString ++ "'"
  | breakOutsideLoop => "unlabelled break must be inside loop or switch"
  | continueOutsideLoop => "continue must be inside loop"
  | continueLabelNotLoop => "continue can only use labels of iteration statements"
  | undefinedLabel name => "undefined label \"" ++ name ++ "\""
  | duplicateLabel name => "Duplicate label \"" ++ name ++ "\""
  | returnOutsideFunction => "return must be inside function"
  | yieldOutsideGenerator => "yield must be inside generator function"
  | awaitOutsideAsync => "await must be inside asynchronous function"
  | forAwaitOutsideAsync => "'for-await-of' used in a non-async function context"
  | newTargetOutsideFunction => "new.target must be inside a function"
  | yieldInParameterDefault => "`yield` is illegal in parameter default value."
  | awaitInParameterDefault => "`await` is illegal in parameter default value."
  | getterParameters count => "Getter must not have any parameters, found " ++ toString count
  | setterParameters count => "Setter must have exactly 1 parameter, found " ++ toString count
  | setterRest => "Setter must not have a rest parameter"
  | duplicateParameter name => "Duplicate parameter name \"" ++ name ++ "\""
  | constructorModifiers => "Class constructor may not be getter, setter, async, or generator."
  | duplicateConstructor => "Class may have only one constructor."
  | privateFieldUndeclared => "Private fields must be declared in an enclosing class"
  | privateMethodUndeclared => "Private methods must be declared in an enclosing class"
  | privateFieldDeleted => "Private fields cannot be deleted"
  | trailingCommaInLiteral => "Trailing comma is not legal in an ECMA-262 object initializer"
  | keywordAsProperty =>
    "Keywords and reserved words are not allowed as unquoted property names in older versions of " ++
      "JavaScript. If you are targeting newer versions of JavaScript, set the appropriate " ++
      "language_in option."
  | reservedIdentifier => "identifier is a reserved word"

end Problem

end EcmaScript
