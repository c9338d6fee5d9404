import EcmaScript.Concrete.Operator

/-!
# Kinds of nodes

## Contents

* `NodeKind`, `NodeKind.name`: the kinds of nodes and their conventional names.
* `NodeKind.ofUnary`, `NodeKind.ofBinary`, `NodeKind.ofAssignment`: the kinds of operators.
* `NodeKind.isAssignment`, `NodeKind.isDeclaration`: families of kinds.
-/

namespace EcmaScript

/-- What a node stands for. -/
inductive NodeKind where
  -- Structure of a program.
  | script
  | moduleBody
  | block
  | empty
  -- Statements.
  | varDeclaration
  | letDeclaration
  | constDeclaration
  | exprResult
  | ifBranch
  | doLoop
  | whileLoop
  | forLoop
  | forIn
  | forOf
  | forAwaitOf
  | continueJump
  | breakJump
  | returnJump
  | withScope
  | switchBranch
  | case
  | defaultCase
  | label
  | labelName
  | throwJump
  | tryBranch
  | catchClause
  | debugger
  -- Functions and classes.
  | function
  | paramList
  | classDefinition
  | classMembers
  | memberFunctionDef
  | getterDef
  | setterDef
  | memberFieldDef
  | computedProp
  | computedFieldDef
  -- Modules.
  | importDeclaration
  | importSpecs
  | importSpec
  | importStar
  | exportDeclaration
  | exportSpecs
  | exportSpec
  -- Names and literals.
  | identifier
  | number
  | bigint
  | string
  | template
  | templateText
  | templateSubstitution
  | taggedTemplate
  | regexp
  | trueLiteral
  | falseLiteral
  | null
  | this
  | super
  | newTarget
  | importMeta
  | dynamicImport
  -- Composite literals and patterns.
  | arrayLiteral
  | objectLiteral
  | stringKey
  | objectSpread
  | spread
  | arrayPattern
  | objectPattern
  | defaultValue
  | objectRest
  | iterRest
  | destructuringTarget
  -- Accesses and calls.
  | property
  | element
  | optionalProperty
  | optionalElement
  | call
  | optionalCall
  | new
  -- Operators.
  | hook
  | comma
  | assign
  | assignAdd
  | assignSubtract
  | assignMultiply
  | assignDivide
  | assignModulo
  | assignExponent
  | assignShiftLeft
  | assignShiftRight
  | assignShiftRightUnsigned
  | assignBitwiseAnd
  | assignBitwiseOr
  | assignBitwiseXor
  | assignAnd
  | assignOr
  | assignCoalesce
  | or
  | and
  | coalesce
  | bitwiseOr
  | bitwiseXor
  | bitwiseAnd
  | equal
  | notEqual
  | strictEqual
  | strictNotEqual
  | less
  | greater
  | lessEqual
  | greaterEqual
  | instanceof
  | isIn
  | shiftLeft
  | shiftRight
  | shiftRightUnsigned
  | add
  | subtract
  | multiply
  | divide
  | modulo
  | exponent
  | not
  | bitwiseNot
  | plus
  | minus
  | typeof
  | void
  | delete
  | increment
  | decrement
  | yield
  | await
  deriving DecidableEq, Repr, Inhabited

namespace NodeKind

/-- The conventional name, as tree listings use it. -/
def name : NodeKind → String
  | .script => "SCRIPT"
  | .moduleBody => "MODULE_BODY"
  | .block => "BLOCK"
  | .empty => "EMPTY"
  | .varDeclaration => "VAR"
  | .letDeclaration => "LET"
  | .constDeclaration => "CONST"
  | .exprResult => "EXPR_RESULT"
  | .ifBranch => "IF"
  | .doLoop => "DO"
  | .whileLoop => "WHILE"
  | .forLoop => "FOR"
  | .forIn => "FOR_IN"
  | .forOf => "FOR_OF"
  | .forAwaitOf => "FOR_AWAIT_OF"
  | .continueJump => "CONTINUE"
  | .breakJump => "BREAK"
  | .returnJump => "RETURN"
  | .withScope => "WITH"
  | .switchBranch => "SWITCH"
  | .case => "CASE"
  | .defaultCase => "DEFAULT_CASE"
  | .label => "LABEL"
  | .labelName => "LABEL_NAME"
  | .throwJump => "THROW"
  | .tryBranch => "TRY"
  | .catchClause => "CATCH"
  | .debugger => "DEBUGGER"
  | .function => "FUNCTION"
  | .paramList => "PARAM_LIST"
  | .classDefinition => "CLASS"
  | .classMembers => "CLASS_MEMBERS"
  | .memberFunctionDef => "MEMBER_FUNCTION_DEF"
  | .getterDef => "GETTER_DEF"
  | .setterDef => "SETTER_DEF"
  | .memberFieldDef => "MEMBER_FIELD_DEF"
  | .computedProp => "COMPUTED_PROP"
  | .computedFieldDef => "COMPUTED_FIELD_DEF"
  | .importDeclaration => "IMPORT"
  | .importSpecs => "IMPORT_SPECS"
  | .importSpec => "IMPORT_SPEC"
  | .importStar => "IMPORT_STAR"
  | .exportDeclaration => "EXPORT"
  | .exportSpecs => "EXPORT_SPECS"
  | .exportSpec => "EXPORT_SPEC"
  | .identifier => "NAME"
  | .number => "NUMBER"
  | .bigint => "BIGINT"
  | .string => "STRINGLIT"
  | .template => "TEMPLATELIT"
  | .templateText => "TEMPLATELIT_STRING"
  | .templateSubstitution => "TEMPLATELIT_SUB"
  | .taggedTemplate => "TAGGED_TEMPLATELIT"
  | .regexp => "REGEXP"
  | .trueLiteral => "TRUE"
  | .falseLiteral => "FALSE"
  | .null => "NULL"
  | .this => "THIS"
  | .super => "SUPER"
  | .newTarget => "NEW_TARGET"
  | .importMeta => "IMPORT_META"
  | .dynamicImport => "DYNAMIC_IMPORT"
  | .arrayLiteral => "ARRAYLIT"
  | .objectLiteral => "OBJECTLIT"
  | .stringKey => "STRING_KEY"
  | .objectSpread => "OBJECT_SPREAD"
  | .spread => "SPREAD"
  | .arrayPattern => "ARRAY_PATTERN"
  | .objectPattern => "OBJECT_PATTERN"
  | .defaultValue => "DEFAULT_VALUE"
  | .objectRest => "OBJECT_REST"
  | .iterRest => "ITER_REST"
  | .destructuringTarget => "DESTRUCTURING_LHS"
  | .property => "GETPROP"
  | .element => "GETELEM"
  | .optionalProperty => "OPTCHAIN_GETPROP"
  | .optionalElement => "OPTCHAIN_GETELEM"
  | .call => "CALL"
  | .optionalCall => "OPTCHAIN_CALL"
  | .new => "NEW"
  | .hook => "HOOK"
  | .comma => "COMMA"
  | .assign => "ASSIGN"
  | .assignAdd => "ASSIGN_ADD"
  | .assignSubtract => "ASSIGN_SUB"
  | .assignMultiply => "ASSIGN_MUL"
  | .assignDivide => "ASSIGN_DIV"
  | .assignModulo => "ASSIGN_MOD"
  | .assignExponent => "ASSIGN_EXPONENT"
  | .assignShiftLeft => "ASSIGN_LSH"
  | .assignShiftRight => "ASSIGN_RSH"
  | .assignShiftRightUnsigned => "ASSIGN_URSH"
  | .assignBitwiseAnd => "ASSIGN_BITAND"
  | .assignBitwiseOr => "ASSIGN_BITOR"
  | .assignBitwiseXor => "ASSIGN_BITXOR"
  | .assignAnd => "ASSIGN_AND"
  | .assignOr => "ASSIGN_OR"
  | .assignCoalesce => "ASSIGN_COALESCE"
  | .or => "OR"
  | .and => "AND"
  | .coalesce => "COALESCE"
  | .bitwiseOr => "BITOR"
  | .bitwiseXor => "BITXOR"
  | .bitwiseAnd => "BITAND"
  | .equal => "EQ"
  | .notEqual => "NE"
  | .strictEqual => "SHEQ"
  | .strictNotEqual => "SHNE"
  | .less => "LT"
  | .greater => "GT"
  | .lessEqual => "LE"
  | .greaterEqual => "GE"
  | .instanceof => "INSTANCEOF"
  | .isIn => "IN"
  | .shiftLeft => "LSH"
  | .shiftRight => "RSH"
  | .shiftRightUnsigned => "URSH"
  | .add => "ADD"
  | .subtract => "SUB"
  | .multiply => "MUL"
  | .divide => "DIV"
  | .modulo => "MOD"
  | .exponent => "EXPONENT"
  | .not => "NOT"
  | .bitwiseNot => "BITNOT"
  | .plus => "POS"
  | .minus => "NEG"
  | .typeof => "TYPEOF"
  | .void => "VOID"
  | .delete => "DELPROP"
  | .increment => "INC"
  | .decrement => "DEC"
  | .yield => "YIELD"
  | .await => "AWAIT"

def ofUnary : UnaryOperator → NodeKind
  | .minus => .minus
  | .plus => .plus
  | .not => .not
  | .bitwiseNot => .bitwiseNot
  | .typeof => .typeof
  | .void => .void
  | .delete => .delete

def ofBinary : BinaryOperator → NodeKind
  | .coalesce => .coalesce
  | .or => .or
  | .and => .and
  | .bitwiseOr => .bitwiseOr
  | .bitwiseXor => .bitwiseXor
  | .bitwiseAnd => .bitwiseAnd
  | .equal => .equal
  | .notEqual => .notEqual
  | .strictEqual => .strictEqual
  | .strictNotEqual => .strictNotEqual
  | .less => .less
  | .greater => .greater
  | .lessEqual => .lessEqual
  | .greaterEqual => .greaterEqual
  | .instanceof => .instanceof
  | .isIn => .isIn
  | .shiftLeft => .shiftLeft
  | .shiftRight => .shiftRight
  | .shiftRightUnsigned => .shiftRightUnsigned
  | .add => .add
  | .subtract => .subtract
  | .multiply => .multiply
  | .divide => .divide
  | .modulo => .modulo
  | .exponent => .exponent

def ofAssignment : AssignmentOperator → NodeKind
  | .assign => .assign
  | .add => .assignAdd
  | .subtract => .assignSubtract
  | .multiply => .assignMultiply
  | .divide => .assignDivide
  | .modulo => .assignModulo
  | .exponent => .assignExponent
  | .shiftLeft => .assignShiftLeft
  | .shiftRight => .assignShiftRight
  | .shiftRightUnsigned => .assignShiftRightUnsigned
  | .bitwiseAnd => .assignBitwiseAnd
  | .bitwiseOr => .assignBitwiseOr
  | .bitwiseXor => .assignBitwiseXor
  | .and => .assignAnd
  | .or => .assignOr
  | .coalesce => .assignCoalesce

/-- Whether the kind is an assignment, plain or combined with an operator. -/
def isAssignment : NodeKind → Bool
  | .assign | .assignAdd | .assignSubtract | .assignMultiply | .assignDivide | .assignModulo
  | .assignExponent | .assignShiftLeft | .assignShiftRight | .assignShiftRightUnsigned
  | .assignBitwiseAnd | .assignBitwiseOr | .assignBitwiseXor | .assignAnd | .assignOr
  | .assignCoalesce => true
  | _ => false

/-- Whether the kind declares variables. -/
def isDeclaration : NodeKind → Bool
  | .varDeclaration | .letDeclaration | .constDeclaration => true
  | _ => false

end NodeKind

end EcmaScript
