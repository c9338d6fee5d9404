import EcmaScript.Proofs.Grammar.Alike

/-!
# The whole grammar is composed

One instance for each production, in the order of the grammar: `Composed` where the production does not
recur, `Alike` over two readers where it does. `composed_read` ties the levels together.

The loops count their rounds off the length of the text that is left (`Alike.get_bind`). The one place
where a failure is caught, `listStatement`, is rewritten into `reporting`, and the two places where a
token is read again, `substitution` and `regExpLiteral`, into `reread`.
-/

namespace EcmaScript

namespace Grammar

-- An instance for a production is as large as the production.
set_option synthInstance.maxSize 2000

namespace Composed

variable {α : Type}

/-! ## The operator stack -/

/-- The operator stack fails as a production does. -/
def Reports (x : Except Failure α) : Prop :=
  ∀ e, x = .error e → ∃ (p : Problem) (position : Position),
    p.EndsProduction ∧ e = .unexpected p.message position

theorem reports_ok (a : α) : Reports (.ok a : Except Failure α) := fun _ h => by cases h

theorem reports_error (p : Problem) (position : Position) [hp : p.EndsProduction] :
    Reports (.error (.unexpected p.message position) : Except Failure α) := by
  intro e h
  cases h
  exact ⟨p, position, hp, rfl⟩

theorem reports_bind {β : Type} {x : Except Failure α} {f : α → Except Failure β} (hx : Reports x)
    (hf : ∀ a, Reports (f a)) : Reports (x >>= f) := by
  cases x with
  | ok a => exact hf a
  | error e =>
      intro e' h
      cases h
      exact hx e rfl

theorem reports_apply (w : WaitingOperator) (right : Expression) : Reports (w.apply right) := by
  unfold WaitingOperator.apply
  split
  · exact reports_error .mixedCoalesce _
  · exact reports_ok _

theorem reports_reduce (ready : BinaryOperator → Bool) (waiting : List WaitingOperator)
    (top : Expression) : Reports (OperatorStack.reduce ready waiting top) := by
  induction waiting generalizing top with
  | nil => exact reports_ok _
  | cons w rest ih =>
      unfold OperatorStack.reduce
      split
      · exact reports_bind (reports_apply w top) fun next => ih next
      · exact reports_ok _

theorem reports_meet (stack : OperatorStack) (next : BinaryOperator) :
    Reports (stack.meet next) := by
  refine reports_bind (reports_reduce _ _ _) fun reduced => ?_
  split
  · refine reports_bind ?_ fun _ => reports_ok _
    unfold checkExponentBase
    split
    · exact reports_error (.unaryBeforeExponent _) _
    · exact reports_error (.unaryBeforeExponent _) _
    · exact reports_ok _
  · exact reports_ok _

theorem reports_finish (stack : OperatorStack) : Reports stack.finish := by
  have h := reports_reduce (fun _ => true) stack.waiting stack.top
  unfold OperatorStack.finish
  cases hx : OperatorStack.reduce (fun _ => true) stack.waiting stack.top with
  | ok reduced => exact reports_ok reduced.top
  | error e =>
      intro e' he
      cases he
      exact h e hx

theorem liftStack {x : Except Failure α} (h : Reports x) : Composed (Grammar.liftStack x) := by
  cases x with
  | ok a => exact pure a
  | error e =>
      obtain ⟨p, position, hp, rfl⟩ := h e rfl
      exact fail p position hp

/-! ## Recovery -/

/-- What a list puts in the place of a statement that failed. -/
def placeholder (start : Position) : Production (Option Statement) := do
  synchronize false
  return some (.error (← spanFrom start))

/-- Catching a failure only to report it, when the parse is to go on, is `reporting`. -/
theorem catch_eq_reporting (p : Production (Option Statement)) (start : Position) :
    (do
      try p
      catch failure =>
        if (← get).options.keepGoing then
          note (·.failure failure)
          synchronize false
          return some (.error (← spanFrom start))
        else throw failure) = Grammar.reporting p (placeholder start) := by
  funext s
  show EStateM.bind (EStateM.tryCatch (EStateM.bind p _) _) _ s = _
  unfold EStateM.bind EStateM.tryCatch Grammar.reporting
  dsimp only
  cases p s with
  | ok a t => rfl
  | error e t =>
      dsimp only [EStateM.Backtrackable.restore, EStateM.dummyRestore]
      rw [Grammar.get_bind]
      by_cases hk : t.options.keepGoing = true
      · have hn : note (·.failure e) t = .ok () { t with journal := t.journal.failure e } := rfl
        rw [if_pos hk, if_pos hk, bind_ok hn, placeholder]
        cases hs : synchronize false { t with journal := t.journal.failure e } with
        | ok a u => rw [bind_ok hs, bind_ok hs]; rfl
        | error e u => rw [bind_error hs, bind_error hs]
      · rw [if_neg hk, if_neg hk]
        rfl

theorem listStatement_eq (read : Reader) :
    listStatement read = (do
      let token ← current
      if token.isMark .rightBrace || token.isEnd || token.isWord .caseWord ||
          token.isWord .defaultWord then
        return none
      else Grammar.reporting (some <$> read (.statement .list)) (placeholder token.start)) := by
  unfold listStatement
  congr 1
  funext token
  split
  · rfl
  · exact catch_eq_reporting _ _

theorem synchronizeFrom (topLevel : Bool) (start limit : Nat) :
    Composed (Grammar.synchronizeFrom topLevel start limit) := by
  induction limit with
  | zero => exact pure _
  | succ limit ih =>
      unfold Grammar.synchronizeFrom
      infer_instance

instance (topLevel : Bool) : Composed (synchronize topLevel) :=
  get_bind (fun hl hc => by rw [hl, hc]) fun _ => synchronizeFrom _ _ _

instance (start : Position) : Composed (placeholder start) := by
  unfold placeholder
  infer_instance

end Composed

/-! ## Loops and blocks -/

namespace Alike

variable {read read' : Reader} {α : Type}

theorem collectFrom {step step' : Production (Option α)} [Alike read read' step step']
    (limit : Nat) (items : List α) :
    Alike read read' (Grammar.collectFrom step limit items)
      (Grammar.collectFrom step' limit items) := by
  induction limit generalizing items with
  | zero => exact same (.pure _)
  | succ limit ih =>
      refine .bind inferInstance fun found => ?_
      split
      · exact ih _
      · exact inferInstance

instance {step step' : Production (Option α)} [Alike read read' step step'] :
    Alike read read' (collect step) (collect step') :=
  get_bind (fun hl _ => by simp only [hl, and_self]) fun _ => collectFrom _ _

instance : Alike read read' (commaAssignment read) (commaAssignment read') := by
  unfold commaAssignment
  infer_instance

instance : Alike read read' (expression read) (expression read') := by
  unfold expression
  infer_instance

instance : Alike read read' (condition read) (condition read') := by
  unfold condition
  infer_instance

instance : Alike read read' (listStatement read) (listStatement read') := by
  rw [Composed.listStatement_eq, Composed.listStatement_eq]
  refine .bind inferInstance fun token => ?_
  split
  · exact inferInstance
  · exact reporting inferInstance inferInstance

instance : Alike read read' (statementList read) (statementList read') := by
  unfold statementList
  infer_instance

instance : Alike read read' (block read) (block read') := by
  unfold block
  infer_instance

/-! ## Literals -/

instance : Composed templateText := by
  unfold templateText
  refine .bind inferInstance fun token => ?_
  split <;> infer_instance

/-- The piece of text that a token is. -/
def textOf (token : Token) : Production (TemplateText × Bool) :=
  match token.kind with
  | .template part => return (⟨part.cooked, part.raw, part.problems, token.span⟩, part.tail)
  | _ => fail (.expected "\x60") token.start

/-- What stands behind the expression of a substitution: a brace, which is read again as the start of
the next piece of text. -/
def textBehind (value : Expression) : Production (Expression × TemplateText × Bool) := do
  if ← atMark .rightBrace then
    let (text, tail) ← textOf (← reread .template)
    return (value, text, tail)
  else failHere .unclosedSubstitution

theorem substitution_eq (read : Reader) :
    substitution read = allowingIn (expression read) >>= textBehind := by
  unfold substitution
  congr 1
  funext value s
  have found : atMark .rightBrace s = .ok (s.current.isMark .rightBrace) s := rfl
  unfold textBehind
  rw [bind_ok found, bind_ok found]
  by_cases h : s.current.isMark .rightBrace = true
  · rw [if_pos h, if_pos h, reread_bind (r := .template) h]
    rfl
  · rw [if_neg h, if_neg h]
    rfl

instance (token : Token) : Composed (textOf token) := by
  unfold textOf
  split <;> infer_instance

instance (value : Expression) : Composed (textBehind value) := by
  unfold textBehind
  infer_instance

instance : Alike read read' (substitution read) (substitution read') := by
  rw [substitution_eq, substitution_eq]
  infer_instance

theorem templateRest (limit : Nat) (texts : List TemplateText) (values : List Expression) :
    Alike read read' (Grammar.templateRest read limit texts values)
      (Grammar.templateRest read' limit texts values) := by
  induction limit generalizing texts values with
  | zero => exact same (.pure _)
  | succ limit ih =>
      unfold Grammar.templateRest
      infer_instance

instance {β : Type} {texts : List TemplateText} {values : List Expression}
    {f f' : List TemplateText × List Expression → Production β}
    [∀ a, Alike read read' (f a) (f' a)] : Alike read read'
      (get >>= fun s => Grammar.templateRest read (s.lexer.rest.length + 2) texts values >>= f)
      (get >>= fun s => Grammar.templateRest read' (s.lexer.rest.length + 2) texts values >>= f') :=
  get_bind (fun hl _ => by simp only [hl, and_self]) fun _ =>
    bind (templateRest _ _ _) fun _ => inferInstance

instance : Alike read read' (template read) (template read') := by
  unfold template
  infer_instance

instance : Alike read read' (spreadable read) (spreadable read') := by
  unfold spreadable
  infer_instance

theorem separatedItems {item item' : Production Expression} [Alike read read' item item']
    (limit : Nat) (list : ItemList) :
    Alike read read' (Grammar.separatedItems item limit list)
      (Grammar.separatedItems item' limit list) := by
  induction limit generalizing list with
  | zero => exact same (.pure _)
  | succ limit ih =>
      unfold Grammar.separatedItems
      infer_instance

instance {item item' : Production Expression} [Alike read read' item item'] {list : ItemList}
    {f f' : ItemList → Production α} [∀ a, Alike read read' (f a) (f' a)] : Alike read read'
      (get >>= fun s => Grammar.separatedItems item (s.lexer.rest.length + 2) list >>= f)
      (get >>= fun s => Grammar.separatedItems item' (s.lexer.rest.length + 2) list >>= f') :=
  get_bind (fun hl _ => by simp only [hl, and_self]) fun _ =>
    bind (separatedItems _ _) fun _ => inferInstance

instance : Alike read read' (parenthesizedItems read) (parenthesizedItems read') := by
  unfold parenthesizedItems
  infer_instance

/-- What stands behind the items of arguments. -/
def closeArguments (start : Position) (list : ItemList) :
    Production (List Expression × Bool × Span) := do
  if let some comma := list.trailingComma then noteTrailingComma comma .trailingCommaInArguments
  let _ ← expectMark .rightParen
  return (list.reversed.reverse, list.trailingComma.isSome, ← spanFrom start)

instance (start : Position) (list : ItemList) : Composed (closeArguments start list) := by
  unfold closeArguments
  split <;> infer_instance

theorem arguments_eq (read : Reader) :
    arguments read = (do
      let start ← position
      let _ ← expectMark .leftParen
      let list ← Grammar.separatedItems (spreadable read) ((← get).lexer.rest.length + 2) {}
      closeArguments start list) := rfl

instance : Alike read read' (arguments read) (arguments read') := by
  rw [arguments_eq, arguments_eq]
  infer_instance

instance : Alike read read' (arrayEntry read) (arrayEntry read') := by
  unfold arrayEntry
  infer_instance

instance : Alike read read' (arrayLiteral read) (arrayLiteral read') := by
  unfold arrayLiteral
  infer_instance

instance : Alike read read' (propertyKey read) (propertyKey read') := by
  unfold propertyKey
  refine .bind inferInstance fun token => ?_
  split <;> infer_instance

instance : Composed accessorKind := by
  unfold accessorKind
  infer_instance

instance : Composed methodModifiers := by
  unfold methodModifiers
  infer_instance

/-! ## Functions, objects and classes -/

instance (start : Position) :
    Alike read read' (restParameter read start) (restParameter read' start) := by
  unfold restParameter
  infer_instance

instance (start : Position) :
    Alike read read' (plainParameter read start) (plainParameter read' start) := by
  unfold plainParameter
  infer_instance

theorem parameterItems (limit : Nat) (list : ItemList) :
    Alike read read' (Grammar.parameterItems read limit list)
      (Grammar.parameterItems read' limit list) := by
  induction limit generalizing list with
  | zero => exact same (.pure _)
  | succ limit ih =>
      unfold Grammar.parameterItems
      infer_instance

instance (isAsync isGenerator : Bool) :
    Alike read read' (parameters read isAsync isGenerator)
      (parameters read' isAsync isGenerator) := by
  have hs := @parameterItems read read'
  unfold parameters
  refine within _ (within _ (.bind inferInstance fun start => .bind inferInstance fun _ => ?_))
  exact get_bind (fun hl _ => by simp only [hl, and_self]) fun _ => inferInstance

instance (isAsync isGenerator : Bool) :
    Alike read read' (functionBody read isAsync isGenerator)
      (functionBody read' isAsync isGenerator) := by
  unfold functionBody
  infer_instance

instance (name : Option Identifier) (kind : FunctionKind) (isAsync isGenerator : Bool)
    (start : Position) :
    Alike read read' (functionRest read name kind isAsync isGenerator start)
      (functionRest read' name kind isAsync isGenerator start) := by
  unfold functionRest
  infer_instance

instance (isAsync : Bool) (start : Position) (anonymousAllowed : Bool) :
    Alike read read' (functionDeclaration read isAsync start anonymousAllowed)
      (functionDeclaration read' isAsync start anonymousAllowed) := by
  unfold functionDeclaration
  infer_instance

instance (isAsync : Bool) (start : Position) :
    Alike read read' (functionExpression read isAsync start)
      (functionExpression read' isAsync start) := by
  unfold functionExpression
  infer_instance

instance (modifiers : MethodModifiers) :
    Alike read read' (method read modifiers) (method read' modifiers) := by
  unfold method
  infer_instance

instance (params : Parameters) (isAsync : Bool) (start : Position) :
    Alike read read' (arrowBody read params isAsync start)
      (arrowBody read' params isAsync start) := by
  unfold arrowBody
  infer_instance

instance : Alike read read' (objectProperty read) (objectProperty read') := by
  unfold objectProperty
  refine .bind inferInstance fun start => .bind inferInstance fun hasEllipsis => ?_
  split
  · infer_instance
  · refine .bind inferInstance fun modifiers => .bind inferInstance fun key => ?_
    dsimp only
    cases key <;> infer_instance

instance : Alike read read' (objectEntry read) (objectEntry read') := by
  unfold objectEntry
  infer_instance

instance : Alike read read' (objectLiteral read) (objectLiteral read') := by
  unfold objectLiteral
  infer_instance

instance : Alike read read' (bindingTarget read) (bindingTarget read') := by
  unfold bindingTarget
  infer_instance

instance (isStatic : Bool) (start : Position) :
    Alike read read' (classElement read isStatic start) (classElement read' isStatic start) := by
  unfold classElement
  infer_instance

instance : Alike read read' (classMember read) (classMember read') := by
  unfold classMember
  infer_instance

instance : Alike read read' (classEntry read) (classEntry read') := by
  unfold classEntry
  infer_instance

instance (anonymousAllowed : Bool) : Composed (className anonymousAllowed) := by
  unfold className
  refine .bind inferInstance fun token => ?_
  split <;> infer_instance

instance (anonymousAllowed : Bool) :
    Alike read read' (classDefinition read anonymousAllowed)
      (classDefinition read' anonymousAllowed) := by
  unfold classDefinition
  infer_instance

/-! ## Primary expressions -/

instance (params : Parameters) (isAsync : Bool) (start : Position) :
    Alike read read' (arrowOnLine read params isAsync start)
      (arrowOnLine read' params isAsync start) := by
  unfold arrowOnLine
  infer_instance

instance (name : String) (token : Token) :
    Alike read read' (reference read name token) (reference read' name token) := by
  unfold reference
  infer_instance

instance (start : Position) :
    Alike read read' (asyncArrow read start) (asyncArrow read' start) := by
  unfold asyncArrow
  infer_instance

instance (asyncSpan : Span) :
    Alike read read' (asyncCallOrArrow read asyncSpan) (asyncCallOrArrow read' asyncSpan) := by
  unfold asyncCallOrArrow
  infer_instance

instance (name : String) :
    Alike read read' (identifierExpression read name) (identifierExpression read' name) := by
  unfold identifierExpression
  refine .bind inferInstance fun token => ?_
  split
  · refine .bind inferInstance fun next => ?_
    split
    · infer_instance
    · split
      · infer_instance
      · split <;> infer_instance
  · infer_instance

instance : Alike read read' (parenthesizedOrArrow read) (parenthesizedOrArrow read') := by
  unfold parenthesizedOrArrow
  refine .bind inferInstance fun start => .bind inferInstance fun (items, comma?, span) => ?_
  refine .bind inferInstance fun isArrow => ?_
  split
  · dsimp only
    cases comma? <;> infer_instance
  · split <;> infer_instance

instance (start : Position) :
    Alike read read' (importExpression read start) (importExpression read' start) := by
  unfold importExpression
  infer_instance

instance : Composed superReference := by
  unfold superReference
  infer_instance

instance (word : Keyword) (token : Token) :
    Alike read read' (keywordExpression read word token) (keywordExpression read' word token) := by
  unfold keywordExpression
  split <;> infer_instance

instance (name : String) (token : Token) : Composed (privateOperand name token) := by
  unfold privateOperand
  infer_instance

/-- A slash that is read again as the start of a regular expression. -/
def slashExpression : Production Expression := do
  let start ← position
  let token ← reread .regExp
  match token.kind with
  | .regexp pattern flags => return .regexp pattern flags token.span
  | _ => fail .primaryExpressionExpected start

instance : Composed slashExpression := by
  unfold slashExpression
  refine .bind inferInstance fun start => .bind inferInstance fun token => ?_
  split <;> infer_instance

theorem regExpLiteral_eq {s : State} (h : Rereading.regExp.applies s.current = true) :
    regExpLiteral s = slashExpression s := by
  have start : position s = .ok s.current.start s := rfl
  unfold regExpLiteral slashExpression
  rw [bind_ok start, bind_ok start, reread_bind h]
  rfl

theorem regExpLiteral_onToken {token : Token} (h : Rereading.regExp.applies token = true) :
    OnToken read read' token regExpLiteral regExpLiteral := by
  have e (s : State) (hs : s.current = token) : regExpLiteral s = slashExpression s :=
    regExpLiteral_eq (hs ▸ h)
  exact ⟨_, _, same inferInstance, fun s hs => ⟨e s hs, e s hs⟩⟩

instance : Alike read read' (primary read) (primary read') := by
  unfold primary
  refine current_bind fun token => ?_
  split
  case h_6 h => exact regExpLiteral_onToken (by simp [Rereading.applies, Token.isMark, h])
  case h_7 h => exact regExpLiteral_onToken (by simp [Rereading.applies, Token.isMark, h])
  all_goals exact onToken inferInstance

/-! ## Operators -/

instance : Composed memberName := by
  unfold memberName
  refine .bind inferInstance fun token => ?_
  split <;> infer_instance

instance (receiver : Expression) (optional : Bool) : Composed (namedAccess receiver optional) := by
  unfold namedAccess
  infer_instance

instance (receiver : Expression) (optional : Bool) :
    Alike read read' (computedAccess read receiver optional)
      (computedAccess read' receiver optional) := by
  unfold computedAccess
  infer_instance

instance (callee : Expression) (optional : Bool) :
    Alike read read' (callOf read callee optional) (callOf read' callee optional) := by
  unfold callOf
  infer_instance

instance (receiver : Expression) :
    Alike read read' (optionalSuffix read receiver) (optionalSuffix read' receiver) := by
  unfold optionalSuffix
  refine .bind inferInstance fun token => ?_
  split <;> infer_instance

instance (callsAllowed : Bool) (receiver : Expression) :
    Alike read read' (suffix? read callsAllowed receiver) (suffix? read' callsAllowed receiver) := by
  unfold suffix?
  refine .bind inferInstance fun token => ?_
  split <;> infer_instance

theorem suffixesFrom (callsAllowed : Bool) (limit : Nat) (receiver : Expression) :
    Alike read read' (Grammar.suffixesFrom read callsAllowed limit receiver)
      (Grammar.suffixesFrom read' callsAllowed limit receiver) := by
  induction limit generalizing receiver with
  | zero => exact same (.pure _)
  | succ limit ih =>
      refine .bind inferInstance fun next => ?_
      split
      · exact ih _
      · exact inferInstance

instance (callsAllowed : Bool) (receiver : Expression) :
    Alike read read' (suffixes read callsAllowed receiver) (suffixes read' callsAllowed receiver) :=
  get_bind (fun hl _ => by simp only [hl, and_self]) fun _ => suffixesFrom _ _ _

instance : Alike read read' (construction read) (construction read') := by
  unfold construction
  infer_instance

instance : Alike read read' (leftHandSide read) (leftHandSide read') := by
  unfold leftHandSide
  infer_instance

instance : Composed atAwaitOperator := by
  unfold atAwaitOperator
  infer_instance

instance : Alike read read' (updatable read) (updatable read') := by
  unfold updatable
  refine .bind inferInstance fun start => .bind inferInstance fun operand => ?_
  refine .bind inferInstance fun token => ?_
  split <;> infer_instance

instance : Alike read read' (unary read) (unary read') := by
  unfold unary
  refine .bind inferInstance fun token => ?_
  split
  · infer_instance
  · split <;> infer_instance

theorem binaryFrom (limit : Nat) (stack : OperatorStack) :
    Alike read read' (Grammar.binaryFrom read limit stack)
      (Grammar.binaryFrom read' limit stack) := by
  induction limit generalizing stack with
  | zero => exact same (.liftStack (Composed.reports_finish stack))
  | succ limit ih =>
      unfold Grammar.binaryFrom
      refine .bind inferInstance fun token => .bind inferInstance fun context => ?_
      split
      · exact same (.liftStack (Composed.reports_finish stack))
      · exact bind (same (.liftStack (Composed.reports_meet stack _))) fun reduced => inferInstance

instance (stack : OperatorStack) : Alike read read'
    (get >>= fun s => Grammar.binaryFrom read (s.lexer.rest.length + 2) stack)
    (get >>= fun s => Grammar.binaryFrom read' (s.lexer.rest.length + 2) stack) :=
  get_bind (fun hl _ => by simp only [hl, and_self]) fun _ => binaryFrom _ _

instance : Alike read read' (binary read) (binary read') := by
  unfold binary
  infer_instance

instance : Alike read read' (conditional read) (conditional read') := by
  unfold conditional
  infer_instance

instance : Alike read read' (yieldOperand read) (yieldOperand read') := by
  unfold yieldOperand
  infer_instance

instance : Alike read read' (yieldExpression read) (yieldExpression read') := by
  unfold yieldExpression
  infer_instance

instance : Alike read read' (assignment read) (assignment read') := by
  unfold assignment
  refine .bind inferInstance fun context => .bind inferInstance fun atYield => ?_
  split
  · infer_instance
  · refine .bind inferInstance fun start => .bind inferInstance fun left => ?_
    split
    · exact inferInstance
    · refine .bind inferInstance fun token => ?_
      split <;> infer_instance

/-! ## Imports and exports -/

instance : Composed moduleSpecifier := by
  unfold moduleSpecifier
  refine .bind inferInstance fun token => ?_
  split <;> infer_instance

instance : Composed moduleName := by
  unfold moduleName
  refine .bind inferInstance fun token => ?_
  split <;> infer_instance

instance : Composed importDefault := by
  unfold importDefault
  refine .bind inferInstance fun token => ?_
  split <;> infer_instance

instance (imported : ModuleName) : Composed (checkImportedName imported) := by
  unfold checkImportedName
  split <;> infer_instance

instance : Composed importSpecifier := by
  unfold importSpecifier
  infer_instance

theorem specifiersFrom {specifier : Production α} [Composed specifier] (limit : Nat)
    (items : List α) : Composed (Grammar.specifiersFrom specifier limit items) := by
  induction limit generalizing items with
  | zero => exact .pure _
  | succ limit ih =>
      unfold Grammar.specifiersFrom
      infer_instance

instance {specifier : Production α} [Composed specifier] : Composed (specifiers specifier) := by
  have hs := @specifiersFrom _ specifier _
  unfold specifiers
  refine .bind inferInstance fun start => .bind inferInstance fun _ => ?_
  exact .get_bind (fun hl _ => by rw [hl]) fun _ => inferInstance

instance : Composed importBindings := by
  unfold importBindings
  infer_instance

instance : Composed importClause := by
  unfold importClause
  infer_instance

instance : Composed importDeclaration := by
  unfold importDeclaration
  infer_instance

instance : Composed exportSpecifier := by
  unfold exportSpecifier
  infer_instance

instance (specifier : ExportSpecifier) : Composed (checkExportedLocal specifier) := by
  unfold checkExportedLocal
  split <;> infer_instance

instance : Alike read read' (exportedDefault read) (exportedDefault read') := by
  unfold exportedDefault
  infer_instance

instance (start : Position) : Composed (exportAll start) := by
  unfold exportAll
  infer_instance

instance (start : Position) : Composed (exportNamed start) := by
  unfold exportNamed
  infer_instance

instance : Alike read read' (exportDeclaration read) (exportDeclaration read') := by
  unfold exportDeclaration
  infer_instance

/-! ## Statements -/

instance : Alike read read' (declarator read) (declarator read') := by
  unfold declarator
  infer_instance

instance : Alike read read' (commaDeclarator read) (commaDeclarator read') := by
  unfold commaDeclarator
  infer_instance

instance (kind : VariableKind) :
    Alike read read' (declaration read kind) (declaration read' kind) := by
  unfold declaration
  infer_instance

instance (kind : VariableKind) :
    Alike read read' (declarationStatement read kind) (declarationStatement read' kind) := by
  unfold declarationStatement
  infer_instance

instance (place : Place) : Composed (checkPlace place) := by
  unfold checkPlace
  infer_instance

instance : Alike read read' (loopHead read) (loopHead read') := by
  unfold loopHead
  infer_instance

instance (head : Option LoopHead) (start : Position) :
    Alike read read' (countingLoop read head start) (countingLoop read' head start) := by
  have (test : Option Expression) : Alike read read'
      (do
        let _ ← expectMark .semicolon
        let update ←
          if ← atMark .rightParen then Pure.pure none else some <$> allowingIn (expression read)
        let _ ← expectMark .rightParen
        let body ← read (.statement .nested)
        return Statement.for head test update body (← spanFrom start))
      (do
        let _ ← expectMark .semicolon
        let update ←
          if ← atMark .rightParen then Pure.pure none else some <$> allowingIn (expression read')
        let _ ← expectMark .rightParen
        let body ← read' (.statement .nested)
        return Statement.for head test update body (← spanFrom start)) := inferInstance
  unfold countingLoop
  infer_instance

instance (head : LoopHead) (start : Position) :
    Alike read read' (keyLoop read head start) (keyLoop read' head start) := by
  unfold keyLoop
  infer_instance

instance (head : LoopHead) (isAwait : Bool) (start : Position) :
    Alike read read' (valueLoop read head isAwait start) (valueLoop read' head isAwait start) := by
  unfold valueLoop
  infer_instance

instance : Alike read read' (forStatement read) (forStatement read') := by
  unfold forStatement
  refine .bind inferInstance fun start => .bind inferInstance fun _ => ?_
  refine .bind inferInstance fun isAwait => .bind inferInstance fun _ => ?_
  refine .bind inferInstance fun head => ?_
  split <;> infer_instance

instance : Alike read read' (whileStatement read) (whileStatement read') := by
  unfold whileStatement
  infer_instance

instance : Alike read read' (doStatement read) (doStatement read') := by
  unfold doStatement
  infer_instance

instance : Alike read read' (ifStatement read) (ifStatement read') := by
  unfold ifStatement
  infer_instance

instance : Alike read read' (caseTest read) (caseTest read') := by
  unfold caseTest
  infer_instance

instance : Alike read read' (switchCase read) (switchCase read') := by
  unfold switchCase
  infer_instance

instance : Alike read read' (switchStatement read) (switchStatement read') := by
  unfold switchStatement
  infer_instance

instance : Alike read read' (catchClause read) (catchClause read') := by
  unfold catchClause
  infer_instance

instance : Alike read read' (tryStatement read) (tryStatement read') := by
  unfold tryStatement
  infer_instance

instance : Composed jumpLabel := by
  unfold jumpLabel
  refine .bind inferInstance fun token => ?_
  split
  · exact inferInstance
  · split <;> infer_instance

instance (make : Option Identifier → Span → Statement) : Composed (jump make) := by
  unfold jump
  infer_instance

instance : Alike read read' (returnStatement read) (returnStatement read') := by
  unfold returnStatement
  infer_instance

instance : Alike read read' (throwStatement read) (throwStatement read') := by
  unfold throwStatement
  infer_instance

instance : Alike read read' (withStatement read) (withStatement read') := by
  unfold withStatement
  infer_instance

instance : Composed debuggerStatement := by
  unfold debuggerStatement
  infer_instance

instance : Composed emptyStatement := by
  unfold emptyStatement
  infer_instance

instance : Alike read read' (expressionStatement read) (expressionStatement read') := by
  unfold expressionStatement
  infer_instance

instance : Alike read read' (labeledStatement read) (labeledStatement read') := by
  unfold labeledStatement
  infer_instance

instance (place : Place) (name : String) :
    Alike read read' (identifierStatement read place name)
      (identifierStatement read' place name) := by
  unfold identifierStatement
  infer_instance

instance (place : Place) (word : Keyword) :
    Alike read read' (keywordStatement read place word) (keywordStatement read' place word) := by
  unfold keywordStatement
  split <;> infer_instance

instance (place : Place) : Alike read read' (statement read place) (statement read' place) := by
  unfold statement
  refine .bind inferInstance fun token => ?_
  split <;> infer_instance

end Alike

/-! ## The whole grammar -/

/-- A nonterminal at two depths is the same production over the nonterminals one level down. -/
theorem alike_read (depth depth' : Nat) (n : Nonterminal) :
    Alike (read depth) (read depth') (read (depth + 1) n) (read (depth' + 1) n) := by
  cases n with
  | statement place =>
      show Alike _ _ (statement (read depth) place) (statement (read depth') place)
      infer_instance
  | assignment =>
      show Alike _ _ (assignment (read depth)) (assignment (read depth'))
      infer_instance
  | unary =>
      show Alike _ _ (unary (read depth)) (unary (read depth'))
      infer_instance
  | leftHandSide =>
      show Alike _ _ (leftHandSide (read depth)) (leftHandSide (read depth'))
      infer_instance
  | construction =>
      show Alike _ _ (construction (read depth)) (construction (read depth'))
      infer_instance
  | binding =>
      show Alike _ _ (bindingTarget (read depth)) (bindingTarget (read depth'))
      infer_instance

/-- **Every nonterminal is composed**, whatever the depth. -/
instance composed_read (depth : Nat) (n : Nonterminal) : Composed (read depth n) := by
  induction depth generalizing n with
  | zero =>
      show Composed (failHere .primaryExpressionExpected)
      infer_instance
  | succ depth ih => exact (alike_read depth depth n).composed ih

end Grammar

end EcmaScript
