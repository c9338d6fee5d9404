import EcmaScript.Concrete.Tree

/-!
# Regions and shapes of concrete trees

## Contents

* `Expression.span`, `Statement.span`: the region that a construct covers. A property access by name
  covers its receiver too.
* `Expression.isOptionalChain`: whether an access or call extends a chain with an optional link.
* `Expression.stripParens`, `Expression.isSimpleTarget`: what can be stored into.
* `Statement.isLoop`, `Statement.labelsLoop`: what a `continue` can name.
-/

namespace EcmaScript

namespace Function

def kind : Function → FunctionKind
  | mk _ _ _ _ _ kind _ _ _ => kind

def isAsync : Function → Bool
  | mk _ _ _ _ _ _ isAsync _ _ => isAsync

def isGenerator : Function → Bool
  | mk _ _ _ _ _ _ _ isGenerator _ => isGenerator

def span : Function → Span
  | mk _ _ _ _ _ _ _ _ span => span

end Function

namespace ClassDefinition

def span : ClassDefinition → Span
  | mk _ _ _ _ span => span

end ClassDefinition

namespace Block

def span : Block → Span
  | mk _ span => span

end Block

namespace Declarator

def span : Declarator → Span
  | mk _ _ span => span

end Declarator

namespace Declaration

def span : Declaration → Span
  | mk _ _ span => span

def declarators : Declaration → List Declarator
  | mk _ declarators _ => declarators

/-- The declaration over the region `span`. -/
def withSpan : Declaration → Span → Declaration
  | mk kind declarators _, span => mk kind declarators span

end Declaration

namespace Expression

/-- The region that an expression covers. -/
def span : Expression → Span
  | identifier name | privateName name => name.span
  | string literal => literal.span
  | function f => f.span
  | classExpression c => c.span
  | member receiver _ _ s => receiver.span.extendTo s
  | this s | super s | null s | newTarget s | importMeta s => s
  | boolean _ s | number _ s | bigint _ s | regexp _ _ s => s
  | template _ _ s | taggedTemplate _ _ _ _ s | array _ _ s | object _ _ s => s
  | unary _ _ s | update _ _ _ s | binary _ _ _ s | assignment _ _ _ s | conditional _ _ _ s => s
  | sequence _ s | computedMember _ _ _ s | call _ _ _ _ s | construction _ _ _ s => s
  | spread _ s | yield _ _ s | await _ s | dynamicImport _ s | paren _ s => s

/-- The place where an expression starts. -/
def start (e : Expression) : Position := e.span.start

/-- Whether an access or call has an optional link, itself or in its unparenthesized receiver. -/
def isOptionalChain : Expression → Bool
  | member receiver _ optional _ => optional || receiver.isOptionalChain
  | computedMember receiver _ optional _ => optional || receiver.isOptionalChain
  | call callee _ _ optional _ => optional || callee.isOptionalChain
  | _ => false

/-- The expression inside any number of parentheses. -/
def stripParens : Expression → Expression
  | paren e _ => e.stripParens
  | e => e

/-- Names and property accesses without an optional link, also in parentheses. -/
def isSimpleTarget (e : Expression) : Bool :=
  match e.stripParens with
  | identifier _ => true
  | member receiver property optional s => !(member receiver property optional s).isOptionalChain
  | computedMember receiver key optional s => !(computedMember receiver key optional s).isOptionalChain
  | _ => false

/-- Whether the expression is an arrow function, which is an operand only in parentheses. -/
def isArrow : Expression → Bool
  | function f => f.kind == .arrow
  | _ => false

end Expression

namespace Statement

/-- The region that a statement covers. -/
def span : Statement → Span
  | block b => b.span
  | «variable» d => d.span
  | function f => f.span
  | classDeclaration c => c.span
  | «import» d => d.span
  | empty s | debugger s | error s => s
  | expression _ s | conditional _ _ _ s | doWhile _ _ s | «while» _ _ s | «for» _ _ _ _ s => s
  | forIn _ _ _ s | forOf _ _ _ _ s | «continue» _ s | «break» _ s | «return» _ s => s
  | «with» _ _ s | «switch» _ _ s | labeled _ _ s | throw _ s | «try» _ _ _ s => s
  | exportDeclaration _ s | exportDefault _ s | exportNamed _ _ _ s | exportAll _ _ s => s

/-- Whether the statement is a loop. -/
def isLoop : Statement → Bool
  | doWhile .. | «while» .. | «for» .. | forIn .. | forOf .. => true
  | _ => false

/-- Whether the statement is a loop past any number of labels. -/
def labelsLoop : Statement → Bool
  | labeled _ body _ => body.labelsLoop
  | s => s.isLoop

end Statement

end EcmaScript
