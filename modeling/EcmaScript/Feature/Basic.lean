import EcmaScript.Edition

/-!
# Features of the language

A feature is a construct that some edition introduced. The parser notes every feature it meets; the
configured edition decides which of them are worth a diagnostic.

## Contents

* `Feature`, `Feature.all`: the features, oldest edition first.
* `Feature.description`: the words that diagnostics use.
* `Feature.minimumEdition`: the first edition with the feature.
* `Feature.key`, `Feature.ofKey?`: the name used in reports and its reader.
-/

namespace EcmaScript

/-- A construct that depends on the edition. -/
inductive Feature where
  | es3KeywordsAsIdentifiers
  | getter
  | keywordsAsProperties
  | setter
  | stringContinuation
  | trailingComma
  | arrayDestructuring
  | arrayPatternRest
  | arrowFunctions
  | binaryLiterals
  | blockScopedFunctionDeclaration
  | classes
  | computedProperties
  | constDeclarations
  | defaultParameters
  | extendedObjectLiterals
  | forOf
  | generators
  | letDeclarations
  | memberDeclarations
  | modules
  | newTarget
  | objectDestructuring
  | octalLiterals
  | regexpFlagU
  | regexpFlagY
  | restParameters
  | spreadExpressions
  | super
  | templateLiterals
  | exponentOp
  | asyncFunctions
  | trailingCommaInParamList
  | asyncGenerators
  | forAwaitOf
  | objectLiteralsWithSpread
  | objectPatternRest
  | regexpFlagS
  | optionalCatchBinding
  | unescapedUnicodeLineOrParagraphSep
  | bigint
  | dynamicImport
  | importMeta
  | nullCoalesceOp
  | optionalChaining
  | logicalAssignment
  | numericSeparator
  | classStaticBlock
  | privateClassProperties
  | publicClassFields
  | regexpFlagD
  | regexpFlagV
  deriving DecidableEq, Repr, Inhabited

namespace Feature

/-- All features in declaration order. -/
def all : List Feature :=
  [.es3KeywordsAsIdentifiers, .getter, .keywordsAsProperties, .setter, .stringContinuation,
   .trailingComma, .arrayDestructuring, .arrayPatternRest, .arrowFunctions, .binaryLiterals,
   .blockScopedFunctionDeclaration, .classes, .computedProperties, .constDeclarations,
   .defaultParameters, .extendedObjectLiterals, .forOf, .generators, .letDeclarations,
   .memberDeclarations, .modules, .newTarget, .objectDestructuring, .octalLiterals, .regexpFlagU,
   .regexpFlagY, .restParameters, .spreadExpressions, .super, .templateLiterals, .exponentOp,
   .asyncFunctions, .trailingCommaInParamList, .asyncGenerators, .forAwaitOf,
   .objectLiteralsWithSpread, .objectPatternRest, .regexpFlagS, .optionalCatchBinding,
   .unescapedUnicodeLineOrParagraphSep, .bigint, .dynamicImport, .importMeta, .nullCoalesceOp,
   .optionalChaining, .logicalAssignment, .numericSeparator, .classStaticBlock,
   .privateClassProperties, .publicClassFields, .regexpFlagD, .regexpFlagV]

/-- Place of the feature in `all`. -/
def rank (f : Feature) : Nat := f.ctorIdx

/-- The words that diagnostics use. -/
def description : Feature → String
  | es3KeywordsAsIdentifiers => "ES3 keywords as identifiers"
  | getter => "getters"
  | keywordsAsProperties => "reserved words as properties"
  | setter => "setters"
  | stringContinuation => "string continuation"
  | trailingComma => "trailing comma"
  | arrayDestructuring => "array destructuring"
  | arrayPatternRest => "array pattern rest"
  | arrowFunctions => "arrow function"
  | binaryLiterals => "binary literal"
  | blockScopedFunctionDeclaration => "block-scoped function declaration"
  | classes => "class"
  | computedProperties => "computed property"
  | constDeclarations => "const declaration"
  | defaultParameters => "default parameter"
  | extendedObjectLiterals => "extended object literal"
  | forOf => "for-of loop"
  | generators => "generator"
  | letDeclarations => "let declaration"
  | memberDeclarations => "member declaration"
  | modules => "modules"
  | newTarget => "new.target"
  | objectDestructuring => "object destructuring"
  | octalLiterals => "octal literal"
  | regexpFlagU => "RegExp flag 'u'"
  | regexpFlagY => "RegExp flag 'y'"
  | restParameters => "rest parameter"
  | spreadExpressions => "spread expression"
  | super => "super"
  | templateLiterals => "template literal"
  | exponentOp => "exponent operator (**)"
  | asyncFunctions => "async function"
  | trailingCommaInParamList => "trailing comma in param list"
  | asyncGenerators => "async generator functions"
  | forAwaitOf => "for-await-of"
  | objectLiteralsWithSpread => "object literals with spread"
  | objectPatternRest => "object pattern rest"
  | regexpFlagS => "RegExp flag 's'"
  | optionalCatchBinding => "Optional catch binding"
  | unescapedUnicodeLineOrParagraphSep => "Unescaped unicode line or paragraph separator"
  | bigint => "bigint"
  | dynamicImport => "Dynamic module import"
  | importMeta => "import.meta"
  | nullCoalesceOp => "Nullish coalescing"
  | optionalChaining => "Optional chaining"
  | logicalAssignment => "Logical assignments"
  | numericSeparator => "numeric separator"
  | classStaticBlock => "Class static blocks"
  | privateClassProperties => "Private class properties"
  | publicClassFields => "Public class fields"
  | regexpFlagD => "RegExp flag 'd'"
  | regexpFlagV => "RegExp flag 'v'"

/-- The first edition that accepts the feature. -/
def minimumEdition : Feature → Edition
  | es3KeywordsAsIdentifiers | getter | keywordsAsProperties | setter
  | stringContinuation | trailingComma => .es5
  | arrayDestructuring | arrayPatternRest | arrowFunctions | binaryLiterals
  | blockScopedFunctionDeclaration | classes | computedProperties | constDeclarations
  | defaultParameters | extendedObjectLiterals | forOf | generators | letDeclarations
  | memberDeclarations | modules | newTarget | objectDestructuring | octalLiterals
  | regexpFlagU | regexpFlagY | restParameters | spreadExpressions | super
  | templateLiterals => .es2015
  | exponentOp => .es2016
  | asyncFunctions | trailingCommaInParamList => .es2017
  | asyncGenerators | forAwaitOf | objectLiteralsWithSpread | objectPatternRest
  | regexpFlagS => .es2018
  | optionalCatchBinding | unescapedUnicodeLineOrParagraphSep => .es2019
  | bigint | dynamicImport | importMeta | nullCoalesceOp | optionalChaining => .es2020
  | logicalAssignment | numericSeparator => .es2021
  | classStaticBlock | privateClassProperties | publicClassFields | regexpFlagD => .esNext
  | regexpFlagV => .unsupported

/-- The message about a use of the feature below its edition. -/
def unsupportedMessage (f : Feature) : String :=
  "This language feature is only supported for " ++ f.minimumEdition.name ++
    " mode or better: " ++ f.description

/-- The name used in reports. -/
def key : Feature → String
  | es3KeywordsAsIdentifiers => "ES3_KEYWORDS_AS_IDENTIFIERS"
  | getter => "GETTER"
  | keywordsAsProperties => "KEYWORDS_AS_PROPERTIES"
  | setter => "SETTER"
  | stringContinuation => "STRING_CONTINUATION"
  | trailingComma => "TRAILING_COMMA"
  | arrayDestructuring => "ARRAY_DESTRUCTURING"
  | arrayPatternRest => "ARRAY_PATTERN_REST"
  | arrowFunctions => "ARROW_FUNCTIONS"
  | binaryLiterals => "BINARY_LITERALS"
  | blockScopedFunctionDeclaration => "BLOCK_SCOPED_FUNCTION_DECLARATION"
  | classes => "CLASSES"
  | computedProperties => "COMPUTED_PROPERTIES"
  | constDeclarations => "CONST_DECLARATIONS"
  | defaultParameters => "DEFAULT_PARAMETERS"
  | extendedObjectLiterals => "EXTENDED_OBJECT_LITERALS"
  | forOf => "FOR_OF"
  | generators => "GENERATORS"
  | letDeclarations => "LET_DECLARATIONS"
  | memberDeclarations => "MEMBER_DECLARATIONS"
  | modules => "MODULES"
  | newTarget => "NEW_TARGET"
  | objectDestructuring => "OBJECT_DESTRUCTURING"
  | octalLiterals => "OCTAL_LITERALS"
  | regexpFlagU => "REGEXP_FLAG_U"
  | regexpFlagY => "REGEXP_FLAG_Y"
  | restParameters => "REST_PARAMETERS"
  | spreadExpressions => "SPREAD_EXPRESSIONS"
  | super => "SUPER"
  | templateLiterals => "TEMPLATE_LITERALS"
  | exponentOp => "EXPONENT_OP"
  | asyncFunctions => "ASYNC_FUNCTIONS"
  | trailingCommaInParamList => "TRAILING_COMMA_IN_PARAM_LIST"
  | asyncGenerators => "ASYNC_GENERATORS"
  | forAwaitOf => "FOR_AWAIT_OF"
  | objectLiteralsWithSpread => "OBJECT_LITERALS_WITH_SPREAD"
  | objectPatternRest => "OBJECT_PATTERN_REST"
  | regexpFlagS => "REGEXP_FLAG_S"
  | optionalCatchBinding => "OPTIONAL_CATCH_BINDING"
  | unescapedUnicodeLineOrParagraphSep => "UNESCAPED_UNICODE_LINE_OR_PARAGRAPH_SEP"
  | bigint => "BIGINT"
  | dynamicImport => "DYNAMIC_IMPORT"
  | importMeta => "IMPORT_META"
  | nullCoalesceOp => "NULL_COALESCE_OP"
  | optionalChaining => "OPTIONAL_CHAINING"
  | logicalAssignment => "LOGICAL_ASSIGNMENT"
  | numericSeparator => "NUMERIC_SEPARATOR"
  | classStaticBlock => "CLASS_STATIC_BLOCK"
  | privateClassProperties => "PRIVATE_CLASS_PROPERTIES"
  | publicClassFields => "PUBLIC_CLASS_FIELDS"
  | regexpFlagD => "REGEXP_FLAG_D"
  | regexpFlagV => "REGEXP_FLAG_V"

/-- The feature that reports call `key`. -/
def ofKey? (key : String) : Option Feature := all.find? fun f => f.key == key

end Feature

end EcmaScript
