import EcmaScript.Concrete.Operator
import EcmaScript.Token.Basic

/-!
# The concrete tree

What the grammar reads, construct by construct, with the region of the text that each one covers.
Targets of assignments and bindings are still expressions here: whether `[a, b]` is a literal or a
pattern is settled when the tree is lowered.

## Contents

* `Identifier`, `StringLiteral`, `TemplateText`, `MemberName`, `ImportDeclaration`,
  `ExportSpecifier`: parts that hold no expressions.
* `Expression`, `Statement` and the types between them.
-/

namespace EcmaScript

/-- A name with its escapes decoded. -/
structure Identifier where
  name : String
  span : Span
  deriving DecidableEq, Repr, Inhabited

/-- A string literal with its escapes decoded; the region includes the quotes. -/
structure StringLiteral where
  value : String
  span : Span
  deriving DecidableEq, Repr, Inhabited

/-- A piece of the text of a template literal. -/
structure TemplateText where
  cooked : Option String
  raw : String
  /-- Problems with escapes, which matter only in a template without a tag. -/
  problems : List LexicalDiagnostic
  span : Span
  deriving DecidableEq, Repr, Inhabited

/-- The name behind the dot of a property access. -/
inductive MemberName where
  | plain (name : Identifier)
  | hidden (name : Identifier)
  deriving DecidableEq, Repr, Inhabited

namespace MemberName

def identifier : MemberName → Identifier
  | plain name | hidden name => name

/-- Whether the name is private to a class. -/
def isHidden : MemberName → Bool
  | plain _ => false
  | hidden _ => true

end MemberName

inductive VariableKind where
  | var
  | letWord
  | const
  deriving DecidableEq, Repr, Inhabited

inductive FunctionKind where
  | declaration
  | expression
  | arrow
  | method
  | getter
  | setter
  deriving DecidableEq, Repr, Inhabited

/-- A name in an import or export clause. -/
inductive ModuleName where
  | identifier (name : Identifier)
  | string (literal : StringLiteral)
  deriving DecidableEq, Repr, Inhabited

namespace ModuleName

def span : ModuleName → Span
  | identifier name => name.span
  | string literal => literal.span

def text : ModuleName → String
  | identifier name => name.name
  | string literal => literal.value

end ModuleName

/-- One entry of the braces of an import declaration. -/
structure ImportSpecifier where
  imported : ModuleName
  /-- The local name, if it differs from the imported one. -/
  «local» : Option Identifier
  span : Span
  deriving DecidableEq, Repr, Inhabited

/-- What an import declaration binds besides a default. -/
inductive ImportBindings where
  | none
  /-- The whole module under one name; the region starts at the star. -/
  | star (name : Identifier) (span : Span)
  | named (specifiers : List ImportSpecifier) (span : Span)
  deriving DecidableEq, Repr, Inhabited

structure ImportDeclaration where
  defaultName : Option Identifier
  bindings : ImportBindings
  source : StringLiteral
  span : Span
  deriving DecidableEq, Repr, Inhabited

/-- One entry of the braces of an export declaration. -/
structure ExportSpecifier where
  «local» : ModuleName
  /-- The exported name, if it differs from the local one. -/
  exported : Option ModuleName
  span : Span
  deriving DecidableEq, Repr, Inhabited

mutual

/-- An expression. -/
inductive Expression where
  | identifier (name : Identifier)
  | this (span : Span)
  | super (span : Span)
  | null (span : Span)
  | boolean (value : Bool) (span : Span)
  | number (value : Double) (span : Span)
  | bigint (value : Nat) (span : Span)
  | string (literal : StringLiteral)
  | regexp (pattern flags : String) (span : Span)
  | template (texts : List TemplateText) (substitutions : List Expression) (span : Span)
  | taggedTemplate (tag : Expression) (texts : List TemplateText) (substitutions : List Expression)
      (templateSpan span : Span)
  | array (elements : List ArrayElement) (trailingComma : Bool) (span : Span)
  | object (properties : List Property) (trailingComma : Bool) (span : Span)
  | function (function : Function)
  | classExpression (definition : ClassDefinition)
  | unary (operator : UnaryOperator) (argument : Expression) (span : Span)
  /-- An increment or a decrement, before or after its operand. -/
  | update (increment afterOperand : Bool) (argument : Expression) (span : Span)
  | binary (operator : BinaryOperator) (left right : Expression) (span : Span)
  | assignment (operator : AssignmentOperator) (left right : Expression) (span : Span)
  | conditional (test consequent alternate : Expression) (span : Span)
  | sequence (expressions : List Expression) (span : Span)
  /-- A property access by name; the region is that of the name. -/
  | member (receiver : Expression) (property : MemberName) (optional : Bool) (span : Span)
  /-- A property access by a computed key; the region is that of the whole access. -/
  | computedMember (receiver key : Expression) (optional : Bool) (span : Span)
  | call (callee : Expression) (arguments : List Expression) (trailingComma optional : Bool)
      (span : Span)
  | construction (callee : Expression) (arguments : List Expression) (trailingComma : Bool)
      (span : Span)
  | spread (argument : Expression) (span : Span)
  | yield (argument : Option Expression) (delegate : Bool) (span : Span)
  | await (argument : Expression) (span : Span)
  /-- A private name, the left operand of the membership test. -/
  | privateName (name : Identifier)
  | newTarget (span : Span)
  | importMeta (span : Span)
  | dynamicImport (argument : Expression) (span : Span)
  | paren (expression : Expression) (span : Span)

/-- An entry of an array literal or pattern. -/
inductive ArrayElement where
  /-- A missing entry, located at its comma. -/
  | hole (span : Span)
  | item (expression : Expression)
  | spread (argument : Expression) (span : Span)

/-- An entry of an object literal or pattern. -/
inductive Property where
  | keyValue (key : PropertyKey) (value : Expression) (span : Span)
  /-- A name that is both key and value, with the default it may have in a pattern. -/
  | shorthand (name : Identifier) (default : Option Expression) (span : Span)
  | method (key : PropertyKey) (function : Function) (span : Span)
  | spread (argument : Expression) (span : Span)

/-- The key of a property or class member. -/
inductive PropertyKey where
  | name (name : Identifier)
  | string (literal : StringLiteral)
  | number (value : Double) (span : Span)
  | bigint (value : Nat) (span : Span)
  | computed (expression : Expression) (span : Span)
  | hidden (name : Identifier)

/-- A function of any kind. The parameters are targets, assignments that give a target its default,
and spreads; their region includes the parentheses. -/
inductive Function where
  | mk (name : Option Identifier) (parameters : List Expression) (trailingComma : Bool)
      (parametersSpan : Span) (body : FunctionBody) (kind : FunctionKind)
      (isAsync isGenerator : Bool) (span : Span)

/-- The body of a function; arrows may have a single expression. -/
inductive FunctionBody where
  | block (block : Block)
  | expression (expression : Expression)

/-- A class with the region of its braces. -/
inductive ClassDefinition where
  | mk (name : Option Identifier) (heritage : Option Expression) (members : List ClassMember)
      (bodySpan span : Span)

inductive ClassMember where
  | method (key : PropertyKey) (function : Function) (isStatic : Bool) (span : Span)
  | field (key : PropertyKey) (value : Option Expression) (isStatic : Bool) (span : Span)
  | staticBlock (block : Block)

/-- Statements between braces. -/
inductive Block where
  | mk (statements : List Statement) (span : Span)

/-- A declared target and its initial value. -/
inductive Declarator where
  | mk (target : Expression) (value : Option Expression) (span : Span)

inductive Declaration where
  | mk (kind : VariableKind) (declarators : List Declarator) (span : Span)

/-- What a loop head starts with. -/
inductive LoopHead where
  | declaration (declaration : Declaration)
  | expression (expression : Expression)

/-- A case of a switch; the default case has no test. -/
inductive SwitchCase where
  | mk (test : Option Expression) (statements : List Statement) (span : Span)

/-- A catch clause. When it binds nothing, `gap` is the region between its first word and its
block. -/
inductive CatchClause where
  | mk (binding : Option Expression) (gap : Span) (block : Block) (span : Span)

/-- A statement or declaration. -/
inductive Statement where
  | block (block : Block)
  | empty (span : Span)
  | variable (declaration : Declaration)
  | expression (expression : Expression) (span : Span)
  | conditional (test : Expression) (consequent : Statement) (alternate : Option Statement)
      (span : Span)
  | doWhile (body : Statement) (test : Expression) (span : Span)
  | while (test : Expression) (body : Statement) (span : Span)
  | for (head : Option LoopHead) (test update : Option Expression) (body : Statement)
      (span : Span)
  | forIn (head : LoopHead) (object : Expression) (body : Statement) (span : Span)
  | forOf (head : LoopHead) (iterable : Expression) (body : Statement) (isAwait : Bool)
      (span : Span)
  | continue (label : Option Identifier) (span : Span)
  | break (label : Option Identifier) (span : Span)
  | return (argument : Option Expression) (span : Span)
  | with (object : Expression) (body : Statement) (span : Span)
  | switch (discriminant : Expression) (cases : List SwitchCase) (span : Span)
  | labeled (label : Identifier) (body : Statement) (span : Span)
  | throw (argument : Expression) (span : Span)
  | try (block : Block) (handler : Option CatchClause) (finalizer : Option Block) (span : Span)
  | debugger (span : Span)
  | function (function : Function)
  | classDeclaration (definition : ClassDefinition)
  | import (declaration : ImportDeclaration)
  | exportDeclaration (declaration : Statement) (span : Span)
  | exportDefault (value : Statement) (span : Span)
  | exportNamed (specifiers : List ExportSpecifier) (specifiersSpan : Span)
      (source : Option StringLiteral) (span : Span)
  | exportAll (exportedName : Option ModuleName) (source : StringLiteral) (span : Span)
  /-- What stands where a statement could not be read. -/
  | error (span : Span)

end

end EcmaScript
