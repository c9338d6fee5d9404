import EcmaScript.Lowering.Leaf
import EcmaScript.Lowering.Module
import EcmaScript.Lowering.Parameter

/-!
# Lowering of trees

The recursion over the concrete tree. A chain of binary operators is followed down its left side
with the operators that are still to be applied, so that its length costs no depth.

## Contents

* `PendingOperator`: an operator whose left operand is being lowered.
* `Lowering.expression`, `Lowering.statement`: the recursion.
* `Lowering.script`: the root of the tree.
-/

namespace EcmaScript

namespace Lowering

/-- A binary operator whose left operand is being lowered. -/
structure PendingOperator where
  operator : BinaryOperator
  /-- The lowering of the right operand. -/
  right : Lowering Node
  span : Span

/-- Applies operators to a lowered left operand, the first one first. -/
def applyPending : List PendingOperator → Node → Lowering Node
  | [], left => return left
  | p :: rest, left => do
    recordBinary p.operator p.span
    let right ← p.right
    applyPending rest (.branch (.ofBinary p.operator) p.span [left, right])

/-- Whether the next operator is the membership test. -/
def awaitsMembership : List PendingOperator → Bool
  | p :: _ => p.operator == .isIn
  | [] => false

/-! ## Bodies -/

/-- Records a function declaration that stands in a block. -/
def recordBlockFunction (s : Statement) : Lowering Unit := do
  if let .function f := s then record .blockScopedFunctionDeclaration f.span.start

/-- The body of a branch or loop, which is always a block in the tree. -/
def bodyNode (s : Statement) (lowered : Lowering Node) : Lowering Node := do
  recordBlockFunction s
  let node ← lowered
  match s with
  | .block _ => return node
  | _ => return .branch .block s.span [node]

/-- The region of the statements of a case, which is empty at the end of the case if it has none. -/
def caseSpan (statements : List Statement) (span : Span) : Lowering Span := do
  match statements.head?, statements.getLast? with
  | some first, some last => return first.span.extendTo last.span
  | _, _ => emptySpanAt span.stop

/-! ## Declarations and loops -/

/-- Records the feature that a declaration needs. -/
def declarationKind (kind : VariableKind) (span : Span) : Lowering NodeKind := do
  match kind with
  | .var => return .varDeclaration
  | .letWord =>
    record .letDeclarations span.start
    return .letDeclaration
  | .const =>
    record .constDeclarations span.start
    return .constDeclaration

/-- Objects to a missing initial value, or to one in the head of a loop that has none. -/
def checkInitializer (kind : VariableKind) (loop : Option String) (target : Expression)
    (hasValue : Bool) (span : Span) : Lowering Unit := do
  match loop with
  | some name => if hasValue then error span.start (.initializerInLoopHead name)
  | none =>
    if !hasValue then
      if kind == .const then error span.start .constWithoutInitializer
      else if !isIdentifier target then error span.start .destructuringWithoutInitializer

/-- A declared target with its initial value. -/
def declaratorNode (isName : Bool) (target : Node) (value : List Node) (span : Span) : Node :=
  if isName then { target with span := span, children := target.children ++ value }
  else .branch .destructuringTarget span (target :: value)

/-- Objects to more than one declaration in the head of a loop. -/
def checkLoopDeclaration (loop : String) (declaration : Declaration) : Lowering Unit := do
  if let _ :: extra :: _ := declaration.declarators then
    error extra.span.start (.severalDeclarationsInLoopHead loop)

/-- The kind of a loop over values, with its feature recorded. -/
def valueLoopKind (isAwait : Bool) (span : Span) : Lowering NodeKind := do
  if isAwait then
    record .forAwaitOf span.start
    checkAwait span.start .forAwaitOutsideAsync
    return .forAwaitOf
  else
    record .forOf span.start
    return .forOf

/-- The name of a kind of loop in diagnostics. -/
def loopName : NodeKind → String
  | .forIn => "for-in"
  | .forOf => "for-of"
  | _ => "for-await-of"

/-! ## Jumps -/

def labelNode (label : Identifier) : Node := .text .labelName label.name label.span

def continueNode (label : Option Identifier) (span : Span) : Lowering Node := do
  let s ← scopes
  match label with
  | some label =>
    match s.findLabel? label.name with
    | none => error label.span.start (.undefinedLabel label.name)
    | some found => if !found.isLoop then error span.start .continueLabelNotLoop
    return .branch .continueJump span [labelNode label]
  | none =>
    unless s.inLoop do error span.start .continueOutsideLoop
    return .leaf .continueJump span

def breakNode (label : Option Identifier) (span : Span) : Lowering Node := do
  let s ← scopes
  match label with
  | some label =>
    if (s.findLabel? label.name).isNone then error label.span.start (.undefinedLabel label.name)
    return .branch .breakJump span [labelNode label]
  | none =>
    unless s.inBreakable do error span.start .breakOutsideLoop
    return .leaf .breakJump span

/-! ## Functions and classes -/

/-- Records the features of a function. -/
def recordFunction (kind : FunctionKind) (isAsync isGenerator : Bool) (span : Span) :
    Lowering Unit := do
  if kind == .arrow then record .arrowFunctions span.start
  match isAsync, isGenerator with
  | true, true => record .asyncGenerators span.start
  | true, false => record .asyncFunctions span.start
  | false, true => record .generators span.start
  | false, false => return

/-- The name of a function, empty before its parameters if it has none. -/
def functionName (name : Option Identifier) (parametersSpan : Span) : Lowering Node := do
  match name with
  | some name => identifier name
  | none => return .name "" (.emptyAt parametersSpan.start)

/-- The boundary that a function of the kind is. -/
def boundaryOf (kind : FunctionKind) : Boundary := if kind == .arrow then .arrow else .function

/-- A parameter list whose entries have been lowered. -/
def parametersNode (items : List Node) (trailingComma : Bool) (span : Span) : Lowering Node := do
  checkDuplicates [] (Node.boundNamesAll items)
  return { kind := .paramList, children := items, span, flags := { trailingComma } }

/-- The kind of the node of a method or accessor. -/
def methodKind : FunctionKind → NodeKind
  | .getter => .getterDef
  | .setter => .setterDef
  | _ => .memberFunctionDef

/-- The feature of a method or accessor of an object literal. -/
def methodFeature : FunctionKind → Feature
  | .getter => .getter
  | .setter => .setter
  | _ => .memberDeclarations

/-- The key of a class member as an expression; `lowered` lowers the expression of a computed one. -/
def classKeyNode (key : PropertyKey) (lowered : Lowering Node) : Lowering Node := do
  match key with
  | .computed _ span =>
    record .computedProperties span.start
    lowered
  | .string literal => return stringNode literal
  | .number value span => return numberNode value span
  | .bigint value span => bigintNode value span
  | .name name => return .text .string name.name name.span
  | .hidden name => return .text .string name.name name.span

/-- A method under a computed key. -/
def computedMethodNode (kind : FunctionKind) (key function : Node) (span : Span) : Node :=
  { kind := .computedProp, children := [key, function], span,
    flags := { isGetter := kind == .getter, isSetter := kind == .setter } }

/-- A method or accessor of an object literal, from the lowerings of its computed key and of its
function. -/
def objectMethodNode (key : PropertyKey) (kind : FunctionKind) (span : Span)
    (loweredKey loweredFunction : Lowering Node) : Lowering Node := do
  record (methodFeature kind) span.start
  match key with
  | .computed _ _ =>
    record .computedProperties span.start
    let keyNode ← loweredKey
    let functionNode ← loweredFunction
    return computedMethodNode kind keyNode functionNode span
  | key =>
    let name ← keyName key
    let functionNode ← loweredFunction
    return name.node (methodKind kind) { functionNode with span := span }

/-- A method or accessor of a class, from the lowerings of its computed key and of its function. -/
def classMethodNode (key : PropertyKey) (kind : FunctionKind) (span : Span)
    (loweredKey loweredFunction : Lowering Node) : Lowering Node := do
  record .memberDeclarations span.start
  match key with
  | .name _ =>
    let name ← keyName key
    let functionNode ← loweredFunction
    return name.node (methodKind kind) { functionNode with span := span }
  | .hidden hiddenName =>
    record .privateClassProperties hiddenName.span.start
    let name ← keyName key
    let functionNode ← loweredFunction
    return name.node (methodKind kind) { functionNode with span := span }
  | key =>
    let keyNode ← classKeyNode key loweredKey
    let functionNode ← loweredFunction
    return computedMethodNode kind keyNode { functionNode with span := span } span

/-- A field without its value, from the lowering of its computed key. -/
def classFieldNode (key : PropertyKey) (span : Span) (loweredKey : Lowering Node) :
    Lowering Node := do
  match key with
  | .hidden _ =>
    record .privateClassProperties span.start
    let name ← keyName key
    return .text .memberFieldDef name.name span
  | .name _ =>
    record .publicClassFields span.start
    let name ← keyName key
    return .text .memberFieldDef name.name span
  | key =>
    record .publicClassFields span.start
    let keyNode ← classKeyNode key loweredKey
    return .branch .computedFieldDef span [keyNode]

mutual

/-- Lowers an expression that plays the given part and is the leftmost operand of the pending
operators. -/
def expression (pending : List PendingOperator) (role : Role) (e : Expression) :
    Lowering Node := do
  role.check e
  match e with
  | .binary operator left right span =>
    expression (⟨operator, expression [] .value right, span⟩ :: pending) .value left
  | .privateName name =>
    let node ← if awaitsMembership pending then privateOperand name else misplacedPrivateName name
    applyPending pending node
  | .identifier name => applyPending pending (← identifier name)
  | .this span => applyPending pending (.leaf .this span)
  | .super span =>
    record .super span.start
    applyPending pending (.leaf .super span)
  | .null span => applyPending pending (.leaf .null span)
  | .boolean value span =>
    applyPending pending (.leaf (if value then .trueLiteral else .falseLiteral) span)
  | .number value span => applyPending pending (numberNode value span)
  | .bigint value span => applyPending pending (← bigintNode value span)
  | .string literal => applyPending pending (stringNode literal)
  | .regexp pattern flags span => applyPending pending (← regexpNode pattern flags span)
  | .template texts substitutions span =>
    record .templateLiterals span.start
    applyPending pending (.branch .template span (← template false texts substitutions))
  | .taggedTemplate tag texts substitutions templateSpan span =>
    let tagNode ← expression [] .value tag
    record .templateLiterals templateSpan.start
    let text ← template true texts substitutions
    applyPending pending
      (.branch .taggedTemplate span [tagNode, .branch .template templateSpan text])
  | .array elements trailingComma span =>
    match role.targetKind? with
    | some kind =>
      record .arrayDestructuring span.start
      return .branch .arrayPattern span (← arrayPattern kind trailingComma elements)
    | none =>
      if trailingComma then record .trailingComma span.start
      let items ← arrayLiteral elements
      applyPending pending
        { kind := .arrayLiteral, children := items, span, flags := { trailingComma } }
  | .object properties trailingComma span =>
    match role.targetKind? with
    | some kind =>
      record .objectDestructuring span.start
      return .branch .objectPattern span (← objectPattern kind properties)
    | none =>
      if trailingComma then record .trailingComma span.start
      let items ← objectLiteral properties
      applyPending pending
        { kind := .objectLiteral, children := items, span, flags := { trailingComma } }
  | .function f => applyPending pending (← function f)
  | .classExpression c => applyPending pending (← classDefinition c)
  | .unary operator argument span =>
    checkOperand operator argument span
    let operand ← expression [] .value argument
    applyPending pending (.branch (.ofUnary operator) span [operand])
  | .update increment afterOperand argument span =>
    checkUpdate increment afterOperand argument
    let operand ← expression [] .value argument
    applyPending pending
      { kind := if increment then .increment else .decrement, children := [operand], span,
        flags := { afterOperand } }
  | .assignment operator left right span =>
    match role, operator with
    | .entry kind, .assign =>
      let target ← expression [] (.target kind) left
      let default ← expression [] .value right
      return .branch .defaultValue span [target, default]
    | .parameter _, .assign =>
      record .defaultParameters span.start
      let target ← expression [] (.target .binding) left
      let default ← expression [] .value right
      checkDefault default
      return .branch .defaultValue span [target, default]
    | .rest kind, .assign => expression [] (.target kind) left
    | _, _ =>
      let target ←
        if operator == .assign then expression [] (.target .assignment) left
        else do
          checkSimpleTarget left
          expression [] .value left
      recordAssignment operator span
      let value ← expression [] .value right
      applyPending pending (.branch (.ofAssignment operator) span [target, value])
  | .conditional test consequent alternate span =>
    let testNode ← expression [] .value test
    let consequentNode ← expression [] .value consequent
    let alternateNode ← expression [] .value alternate
    applyPending pending (.branch .hook span [testNode, consequentNode, alternateNode])
  | .sequence items _ => applyPending pending (commaNode (← expressions items))
  | .member receiver property optional span =>
    if optional then record .optionalChaining span.start
    let receiverNode ← expression [] .value receiver
    applyPending pending
      (← memberNode (chainPlace receiver optional) receiverNode property (role == .callee) span)
  | .computedMember receiver key optional span =>
    if optional then record .optionalChaining span.start
    let receiverNode ← expression [] .value receiver
    let keyNode ← expression [] .value key
    applyPending pending (elementNode (chainPlace receiver optional) receiverNode keyNode span)
  | .call callee items trailingComma optional span =>
    if optional then record .optionalChaining span.start
    let place := chainPlace callee optional
    let calleeNode ← expression [] .callee callee
    let arguments ← expressions items
    applyPending pending
      { kind := if place.inChain then .optionalCall else .call,
        children := calleeNode :: arguments, span,
        flags := { trailingComma, chainStart := place.startsChain,
                   freeCall := isIdentifier callee } }
  | .construction callee items trailingComma span =>
    let calleeNode ← expression [] .value callee
    let arguments ← expressions items
    applyPending pending
      { kind := .new, children := calleeNode :: arguments, span, flags := { trailingComma } }
  | .spread argument span =>
    match role with
    | .parameter place =>
      record .restParameters span.start
      if !place.isLast then
        if !place.objected then error span.start .restNotLast
      else if place.trailingComma then error span.start .commaAfterRest
      let target ← expression [] (.target .binding) argument
      return .branch .iterRest span [target]
    | _ =>
      record .spreadExpressions span.start
      let operand ← expression [] .value argument
      applyPending pending (.branch .spread span [operand])
  | .yield argument delegates span =>
    unless (← scopes).function.isGenerator do error span.start .yieldOutsideGenerator
    let operand ← optional argument
    applyPending pending { kind := .yield, children := operand, span, flags := { delegates } }
  | .await argument span =>
    checkAwait span.start .awaitOutsideAsync
    let operand ← expression [] .value argument
    applyPending pending (.branch .await span [operand])
  | .newTarget span =>
    unless (← scopes).newTargetAllowed do error span.start .newTargetOutsideFunction
    record .newTarget span.start
    applyPending pending (.leaf .newTarget span)
  | .importMeta span =>
    markModule span.start
    record .importMeta span.start
    applyPending pending (.leaf .importMeta span)
  | .dynamicImport argument span =>
    record .dynamicImport span.start
    let operand ← expression [] .value argument
    applyPending pending (.branch .dynamicImport span [operand])
  | .paren inner _ =>
    let node ← expression [] .value inner
    applyPending pending (node.mark ({ · with parenthesized := true }))

/-- Lowers the values of a list. -/
def expressions : List Expression → Lowering (List Node)
  | [] => return []
  | e :: rest => do
    let node ← expression [] .value e
    return node :: (← expressions rest)

/-- Lowers a value that may be missing. -/
def optional : Option Expression → Lowering (List Node)
  | some e => do return [← expression [] .value e]
  | none => return []

/-- Lowers the pieces of a template, texts and substitutions in turn. -/
def template (tagged : Bool) (texts : List TemplateText) :
    List Expression → Lowering (List Node)
  | [] => texts.mapM (templateText tagged)
  | e :: rest => do
    match texts with
    | [] => return []
    | text :: texts =>
      let textNode ← templateText tagged text
      let value ← expression [] .value e
      return textNode :: .branch .templateSubstitution e.span [value] ::
        (← template tagged texts rest)

/-- Lowers the entries of an array literal. -/
def arrayLiteral : List ArrayElement → Lowering (List Node)
  | [] => return []
  | .hole span :: rest => return .empty (.emptyAt span.start) :: (← arrayLiteral rest)
  | .item e :: rest => do
    let node ← expression [] .value e
    return node :: (← arrayLiteral rest)
  | .spread argument span :: rest => do
    record .spreadExpressions span.start
    let node ← expression [] .value argument
    return .branch .spread span [node] :: (← arrayLiteral rest)

/-- Lowers the entries of an array pattern. -/
def arrayPattern (kind : TargetKind) (trailingComma : Bool) :
    List ArrayElement → Lowering (List Node)
  | [] => return []
  | .hole span :: rest =>
    return .empty (.emptyAt span.start) :: (← arrayPattern kind trailingComma rest)
  | .item e :: rest => do
    let node ← expression [] (.entry kind) e
    return node :: (← arrayPattern kind trailingComma rest)
  | .spread argument span :: rest => do
    record .arrayPatternRest span.start
    checkRest rest.isEmpty trailingComma span
    let node ← expression [] (.rest kind) argument
    return .branch .iterRest span [node] :: (← arrayPattern kind trailingComma rest)

/-- Lowers the entries of an object literal. -/
def objectLiteral : List Property → Lowering (List Node)
  | [] => return []
  | .keyValue (.computed key _) value span :: rest => do
    record .computedProperties span.start
    let keyNode ← expression [] .value key
    let valueNode ← expression [] .value value
    return .branch .computedProp span [keyNode, valueNode] :: (← objectLiteral rest)
  | .keyValue key value _ :: rest => do
    let name ← keyName key
    let valueNode ← expression [] .value value
    return name.node .stringKey valueNode :: (← objectLiteral rest)
  | .shorthand name default span :: rest => do
    record .extendedObjectLiterals span.start
    if ← isReservedShorthand name.name then error name.span.start .keywordInShorthand
    let nameNode ← identifier name
    if let some value := default then error value.start .defaultInObjectLiteral
    let value ← optional default
    let node := if value.isEmpty then nameNode else .branch .defaultValue span (nameNode :: value)
    return shorthandNode name node :: (← objectLiteral rest)
  | .method key f span :: rest => do
    let node ← objectMethodNode key f.kind span (keyExpression key) (function f)
    return node :: (← objectLiteral rest)
  | .spread argument span :: rest => do
    record .objectLiteralsWithSpread span.start
    let node ← expression [] .value argument
    return .branch .objectSpread span [node] :: (← objectLiteral rest)

/-- Lowers the entries of an object pattern. -/
def objectPattern (kind : TargetKind) : List Property → Lowering (List Node)
  | [] => return []
  | .keyValue (.computed key _) value span :: rest => do
    record .computedProperties span.start
    let keyNode ← expression [] .value key
    let target ← expression [] (.entry kind) value
    return .branch .computedProp span [keyNode, target] :: (← objectPattern kind rest)
  | .keyValue key value _ :: rest => do
    let name ← keyName key
    let target ← expression [] (.entry kind) value
    return name.node .stringKey target :: (← objectPattern kind rest)
  | .shorthand name default span :: rest => do
    if ← isReservedShorthand name.name then
      error name.span.start (.keywordNotAllowed name.name)
    let nameNode ← identifier name
    let value ← optional default
    let node := if value.isEmpty then nameNode else .branch .defaultValue span (nameNode :: value)
    return shorthandNode name node :: (← objectPattern kind rest)
  | .method _ _ span :: rest => do
    error span.start .invalidAssignmentTarget
    return .empty span :: (← objectPattern kind rest)
  | .spread argument span :: rest => do
    record .objectPatternRest span.start
    checkRest rest.isEmpty false span
    checkObjectRest argument
    let target ← expression [] (.rest kind) argument
    return .branch .objectRest span [target] :: (← objectPattern kind rest)

/-- Lowers a function of any kind. -/
def function : Function → Lowering Node
  | .mk name items trailingComma parametersSpan body kind isAsync isGenerator span => do
    recordFunction kind isAsync isGenerator span
    let nameNode ← functionName name parametersSpan
    let (params, bodyNode) ← insideFunction (boundaryOf kind) isGenerator isAsync do
      let objected ← checkAccessor kind items parametersSpan
      let nodes ← parameters trailingComma objected items
      let params ← parametersNode nodes trailingComma parametersSpan
      let bodyNode ← functionBody body
      return (params, bodyNode)
    return {
      kind := .function
      children := [nameNode, params, bodyNode]
      span
      flags := { isGenerator, isAsync, isArrow := kind == .arrow } }

def parameters (trailingComma objected : Bool) : List Expression → Lowering (List Node)
  | [] => return []
  | e :: rest => do
    let node ← expression [] (.parameter ⟨rest.isEmpty, trailingComma, objected⟩) e
    return node :: (← parameters trailingComma objected rest)

def functionBody : FunctionBody → Lowering Node
  | .block b => block false b
  | .expression e => expression [] .value e

/-- Lowers a block; function declarations are recorded unless it is the body of a function. -/
def block (nested : Bool) : Block → Lowering Node
  | .mk items span => do return .branch .block span (← statements nested items)

def statements (nested : Bool) : List Statement → Lowering (List Node)
  | [] => return []
  | s :: rest => do
    if nested then recordBlockFunction s
    let node ← statement s
    return node :: (← statements nested rest)

/-- Lowers a class: its name, its heritage and its members. -/
def classDefinition : ClassDefinition → Lowering Node
  | .mk name heritage members bodySpan span => do
    record .classes span.start
    let nameNode ← match name with
      | some name => identifier name
      | none => pure (.empty (.emptyAt span.start))
    let heritageNode ← match heritage with
      | some e => expression [] .value e
      | none => pure (.empty (.emptyAt bodySpan.start))
    checkConstructors false (members.filterMap constructor?)
    let nodes ← insideClass (privateNames members) (classMembers members)
    return .branch .classDefinition span
      [nameNode, heritageNode, .branch .classMembers bodySpan nodes]

def classMembers : List ClassMember → Lowering (List Node)
  | [] => return []
  | member :: rest => do
    let node ← classMember member
    return node :: (← classMembers rest)

def classMember : ClassMember → Lowering Node
  | .method key f isStatic span => do
    let node ← classMethodNode key f.kind span (keyExpression key) (function f)
    return node.mark ({ · with isStatic })
  | .field key value isStatic span => do
    let node ← classFieldNode key span (keyExpression key)
    let valueNode ← match value with
      | some e => do pure [← insideFunction .fieldInitializer false false (expression [] .value e)]
      | none => pure []
    return { node with children := node.children ++ valueNode }.mark ({ · with isStatic })
  | .staticBlock (.mk items span) => do
    record .classStaticBlock span.start
    let nodes ← insideFunction .staticBlock false false (statements false items)
    return { kind := .block, children := nodes, span, flags := { isStatic := true } }

/-- Lowers the expression of a computed key; other keys have none. -/
def keyExpression : PropertyKey → Lowering Node
  | .computed e _ => expression [] .value e
  | _ => return default

def declaration (loop : Option String) : Declaration → Lowering Node
  | .mk kind declarators span => do
    let nodeKind ← declarationKind kind span
    return .branch nodeKind span (← declaratorList kind loop declarators)

def declaratorList (kind : VariableKind) (loop : Option String) :
    List Declarator → Lowering (List Node)
  | [] => return []
  | .mk target value span :: rest => do
    checkInitializer kind loop target value.isSome span
    let targetNode ← expression [] (.target .binding) target
    let valueNode ← optional value
    return declaratorNode (isIdentifier target) targetNode valueNode span ::
      (← declaratorList kind loop rest)

/-- Lowers the head of a loop over keys or values. -/
def loopTarget (loop : String) : LoopHead → Lowering Node
  | .declaration d => do
    checkLoopDeclaration loop d
    declaration (some loop) d
  | .expression e => expression [] (.target .assignment) e

/-- Lowers a part of the head of a counting loop; a missing one is empty at the start of the
loop. -/
def loopPart (span : Span) : Option Expression → Lowering Node
  | some e => expression [] .value e
  | none => return .empty (.emptyAt span.start)

def switchCases : List SwitchCase → Lowering (List Node)
  | [] => return []
  | .mk test items span :: rest => do
    let bodySpan ← caseSpan items span
    let nodes ← statements true items
    let body := Node.branch .block bodySpan nodes
    let testNode ← optional test
    let kind := if test.isSome then NodeKind.case else .defaultCase
    return .branch kind span (testNode ++ [body]) :: (← switchCases rest)

/-- Lowers a catch clause into the block that holds it. -/
def catchClause : CatchClause → Lowering Node
  | .mk binding gap body span => do
    let target ← match binding with
      | some e => expression [] (.target .binding) e
      | none => do
        record .optionalCatchBinding span.start
        pure (.empty gap)
    let bodyNode ← block true body
    return .branch .block span [.branch .catchClause span [target, bodyNode]]

/-- Lowers a statement of any kind. -/
def statement : Statement → Lowering Node
  | .block b => block true b
  | .empty span => return .empty span
  | .error span => return .empty span
  | .variable d => declaration none d
  | .expression e span => do return .branch .exprResult span [← expression [] .value e]
  | .conditional test consequent alternate span => do
    let testNode ← expression [] .value test
    let consequentNode ← bodyNode consequent (statement consequent)
    let alternateNode ← match alternate with
      | some s => do pure [← bodyNode s (statement s)]
      | none => pure []
    return .branch .ifBranch span (testNode :: consequentNode :: alternateNode)
  | .doWhile body test span => do
    let bodyN ← insideLoop (bodyNode body (statement body))
    let testNode ← expression [] .value test
    return .branch .doLoop span [bodyN, testNode]
  | .while test body span => do
    let testNode ← expression [] .value test
    let bodyN ← insideLoop (bodyNode body (statement body))
    return .branch .whileLoop span [testNode, bodyN]
  | .for head test update body span => do
    let headNode ← match head with
      | some (.declaration d) => declaration none d
      | some (.expression e) => expression [] .value e
      | none => pure (.empty (.emptyAt span.start))
    let testNode ← loopPart span test
    let updateNode ← loopPart span update
    let bodyN ← insideLoop (bodyNode body (statement body))
    return .branch .forLoop span [headNode, testNode, updateNode, bodyN]
  | .forIn head object body span => do
    let target ← loopTarget (loopName .forIn) head
    let objectNode ← expression [] .value object
    let bodyN ← insideLoop (bodyNode body (statement body))
    return .branch .forIn span [target, objectNode, bodyN]
  | .forOf head iterable body isAwait span => do
    let kind ← valueLoopKind isAwait span
    let target ← loopTarget (loopName kind) head
    let iterableNode ← expression [] .value iterable
    let bodyN ← insideLoop (bodyNode body (statement body))
    return .branch kind span [target, iterableNode, bodyN]
  | .continue label span => continueNode label span
  | .break label span => breakNode label span
  | .return argument span => do
    unless (← scopes).returnAllowed do error span.start .returnOutsideFunction
    return .branch .returnJump span (← optional argument)
  | .with object body span => do
    let objectNode ← expression [] .value object
    let bodyN ← bodyNode body (statement body)
    return .branch .withScope span [objectNode, bodyN]
  | .switch discriminant cases span => do
    let discriminantNode ← expression [] .value discriminant
    let caseNodes ← insideSwitch (switchCases cases)
    return .branch .switchBranch span (discriminantNode :: caseNodes)
  | .labeled label body span => do
    let bodyN ← insideLabel label body.labelsLoop (statement body)
    return .branch .label span [labelNode label, bodyN]
  | .throw argument span => do return .branch .throwJump span [← expression [] .value argument]
  | .try (.mk items blockSpan) handler finalizer span => do
    let blockN := Node.branch .block blockSpan (← statements true items)
    let catchN ← match handler with
      | some clause => catchClause clause
      | none => do pure (.leaf .block (← emptySpanAt blockSpan.stop))
    let finallyN ← match finalizer with
      | some b => do pure [← block true b]
      | none => pure []
    return .branch .tryBranch span (blockN :: catchN :: finallyN)
  | .debugger span => return .leaf .debugger span
  | .function f => function f
  | .classDeclaration c => classDefinition c
  | .import d => importNode d
  | .exportDeclaration s span => do
    markModule span.start
    return .branch .exportDeclaration span [← statement s]
  | .exportDefault value span => do
    markModule span.start
    let node ← match value with
      | .expression e _ => expression [] .value e
      | s => statement s
    return { kind := .exportDeclaration, children := [node], span, flags := { exportDefault := true } }
  | .exportNamed specifiers specifiersSpan source span => do
    markModule span.start
    return exportNamedNode specifiers specifiersSpan source span
  | .exportAll exportedName source span => do
    markModule span.start
    return exportAllNode exportedName source span

end

/-! ## The root -/

/-- The root of the tree over its statements. In a script the uses of `await` that waited are
objected to now. -/
def script (nodes : List Node) (span : Span) : Lowering Node := do
  let s ← get
  if s.isModule then
    return .branch .script span [.branch .moduleBody span nodes]
  else
    s.pendingAwaits.reverse.forM fun (position, problem) => error position problem
    return .branch .script span nodes

end Lowering

end EcmaScript
