import EcmaScript.Proofs.Script.Statement

/-!
# The context of a production ends with it

What `yield`, `await` and `in` mean is changed for a part of a production by `within`, which puts the
context back on both ways out. A production does nothing else to the context, so it leaves it as it
found it, also where a part of it fails (`Composed.context_eq`).

For the statements behind a failure this means that they are read in the context of their own list. To
say so without looking into a run, the reader of a list is replaced by one that does whatever one likes
in any other context (`Reader.elsewhere`): the list does not notice.

## Contents

* `Composed.context_eq`: the context behind a production.
* `OfGrammar`: the productions of the grammar, one by one.
* `Reader.elsewhere`, `statementList_elsewhere`, `functionBody_elsewhere`, `arrowBody_elsewhere`: the
  statements of a list, of a function and of an arrow function.
* `context_restored`: all of it.
-/

namespace EcmaScript

namespace Grammar

/-! ## Behind a production -/

section Behind

variable {α β : Type} {p : Production α} {s : State}

theorem State.readAgain_context (s : State) (r : Rereading) :
    (s.readAgain r).context = s.context := by
  unfold State.readAgain
  split <;> rfl

theorem stateOf_within (change : Context → Context) :
    (stateOf (within change p s)).context = s.context := by
  unfold within
  cases p { s with context := change s.context } <;> rfl

/-- **A production leaves the context as it found it**, whether it fails or not. -/
theorem Composed.context_eq (h : Composed p) (s : State) :
    (stateOf (p s)).context = s.context := by
  induction h generalizing s with
  | pure a => rfl
  | look f => rfl
  | advance => rfl
  | reread r => exact s.readAgain_context r
  | fail q position _ => rfl
  | trailingComma comma place =>
      unfold noteTrailingComma
      refine stateOf_bind (P := fun t => t.context = s.context) rfl fun _ t ht => ?_
      cases ht
      show (stateOf ((if _ then _ else _ : Production Unit) _)).context = _
      split <;> rfl
  | within change _ _ => exact stateOf_within change
  | @bind α β p f _ _ ihp ihf =>
      refine stateOf_bind (P := fun t => t.context = s.context) (ihp s) fun a t ht => ?_
      have hp := ihp s
      rw [ht] at hp
      exact (ihf a t).trans hp
  | @reporting α p handler _ _ ihp ihh =>
      have hp := ihp s
      unfold Grammar.reporting
      cases ht : p s with
      | ok a t =>
          rw [ht] at hp
          exact hp
      | error e t =>
          rw [ht] at hp
          dsimp only
          split
          · exact (ihh _).trans hp
          · exact hp

end Behind

/-! ## The productions of the grammar -/

/-- The productions of the grammar over a reader, in the order of the grammar. -/
inductive OfGrammar (read : Reader) : {α : Type} → Production α → Prop where
  -- names
  | endStatement : OfGrammar read endStatement
  | bindingIdentifier : OfGrammar read bindingIdentifier
  | identifierName : OfGrammar read identifierName
  -- expressions, recovery and blocks
  | commaAssignment : OfGrammar read (commaAssignment read)
  | expression : OfGrammar read (expression read)
  | condition : OfGrammar read (condition read)
  | synchronize (topLevel : Bool) : OfGrammar read (synchronize topLevel)
  | listStatement : OfGrammar read (listStatement read)
  | statementList : OfGrammar read (statementList read)
  | block : OfGrammar read (block read)
  -- literals
  | templateText : OfGrammar read templateText
  | substitution : OfGrammar read (substitution read)
  | template : OfGrammar read (template read)
  | spreadable : OfGrammar read (spreadable read)
  | parenthesizedItems : OfGrammar read (parenthesizedItems read)
  | arguments : OfGrammar read (arguments read)
  | arrayEntry : OfGrammar read (arrayEntry read)
  | arrayLiteral : OfGrammar read (arrayLiteral read)
  | propertyKey : OfGrammar read (propertyKey read)
  | accessorKind : OfGrammar read accessorKind
  | methodModifiers : OfGrammar read methodModifiers
  -- functions, objects and classes
  | restParameter (start : Position) : OfGrammar read (restParameter read start)
  | plainParameter (start : Position) : OfGrammar read (plainParameter read start)
  | parameters (isAsync isGenerator : Bool) : OfGrammar read (parameters read isAsync isGenerator)
  | functionBody (isAsync isGenerator : Bool) :
      OfGrammar read (functionBody read isAsync isGenerator)
  | functionRest (name : Option Identifier) (kind : FunctionKind) (isAsync isGenerator : Bool)
      (start : Position) :
      OfGrammar read (functionRest read name kind isAsync isGenerator start)
  | functionDeclaration (isAsync : Bool) (start : Position) (anonymousAllowed : Bool) :
      OfGrammar read (functionDeclaration read isAsync start anonymousAllowed)
  | functionExpression (isAsync : Bool) (start : Position) :
      OfGrammar read (functionExpression read isAsync start)
  | method (modifiers : MethodModifiers) : OfGrammar read (method read modifiers)
  | arrowBody (params : Parameters) (isAsync : Bool) (start : Position) :
      OfGrammar read (arrowBody read params isAsync start)
  | objectProperty : OfGrammar read (objectProperty read)
  | objectEntry : OfGrammar read (objectEntry read)
  | objectLiteral : OfGrammar read (objectLiteral read)
  | bindingTarget : OfGrammar read (bindingTarget read)
  | classElement (isStatic : Bool) (start : Position) :
      OfGrammar read (classElement read isStatic start)
  | classMember : OfGrammar read (classMember read)
  | classEntry : OfGrammar read (classEntry read)
  | className (anonymousAllowed : Bool) : OfGrammar read (className anonymousAllowed)
  | classDefinition (anonymousAllowed : Bool) :
      OfGrammar read (classDefinition read anonymousAllowed)
  -- primary expressions
  | arrowOnLine (params : Parameters) (isAsync : Bool) (start : Position) :
      OfGrammar read (arrowOnLine read params isAsync start)
  | reference (name : String) (token : Token) : OfGrammar read (reference read name token)
  | asyncArrow (start : Position) : OfGrammar read (asyncArrow read start)
  | asyncCallOrArrow (asyncSpan : Span) : OfGrammar read (asyncCallOrArrow read asyncSpan)
  | identifierExpression (name : String) : OfGrammar read (identifierExpression read name)
  | parenthesizedOrArrow : OfGrammar read (parenthesizedOrArrow read)
  | importExpression (start : Position) : OfGrammar read (importExpression read start)
  | superReference : OfGrammar read superReference
  | keywordExpression (word : Keyword) (token : Token) :
      OfGrammar read (keywordExpression read word token)
  | regExpLiteral : OfGrammar read regExpLiteral
  | privateOperand (name : String) (token : Token) : OfGrammar read (privateOperand name token)
  | primary : OfGrammar read (primary read)
  -- operators
  | memberName : OfGrammar read memberName
  | namedAccess (receiver : Expression) (optional : Bool) :
      OfGrammar read (namedAccess receiver optional)
  | computedAccess (receiver : Expression) (optional : Bool) :
      OfGrammar read (computedAccess read receiver optional)
  | callOf (callee : Expression) (optional : Bool) : OfGrammar read (callOf read callee optional)
  | optionalSuffix (receiver : Expression) : OfGrammar read (optionalSuffix read receiver)
  | suffix (callsAllowed : Bool) (receiver : Expression) :
      OfGrammar read (suffix? read callsAllowed receiver)
  | suffixes (callsAllowed : Bool) (receiver : Expression) :
      OfGrammar read (suffixes read callsAllowed receiver)
  | construction : OfGrammar read (construction read)
  | leftHandSide : OfGrammar read (leftHandSide read)
  | updatable : OfGrammar read (updatable read)
  | unary : OfGrammar read (unary read)
  | binary : OfGrammar read (binary read)
  | conditional : OfGrammar read (conditional read)
  | yieldOperand : OfGrammar read (yieldOperand read)
  | yieldExpression : OfGrammar read (yieldExpression read)
  | assignment : OfGrammar read (assignment read)
  -- imports and exports
  | moduleSpecifier : OfGrammar read moduleSpecifier
  | moduleName : OfGrammar read moduleName
  | importDefault : OfGrammar read importDefault
  | checkImportedName (imported : ModuleName) : OfGrammar read (checkImportedName imported)
  | importSpecifier : OfGrammar read importSpecifier
  | importBindings : OfGrammar read importBindings
  | importClause : OfGrammar read importClause
  | importDeclaration : OfGrammar read importDeclaration
  | exportSpecifier : OfGrammar read exportSpecifier
  | checkExportedLocal (specifier : ExportSpecifier) : OfGrammar read (checkExportedLocal specifier)
  | exportedDefault : OfGrammar read (exportedDefault read)
  | exportAll (start : Position) : OfGrammar read (exportAll start)
  | exportNamed (start : Position) : OfGrammar read (exportNamed start)
  | exportDeclaration : OfGrammar read (exportDeclaration read)
  -- statements
  | declarator : OfGrammar read (declarator read)
  | commaDeclarator : OfGrammar read (commaDeclarator read)
  | declaration (kind : VariableKind) : OfGrammar read (declaration read kind)
  | declarationStatement (kind : VariableKind) : OfGrammar read (declarationStatement read kind)
  | checkPlace (place : Place) : OfGrammar read (checkPlace place)
  | loopHead : OfGrammar read (loopHead read)
  | countingLoop (head : Option LoopHead) (start : Position) :
      OfGrammar read (countingLoop read head start)
  | keyLoop (head : LoopHead) (start : Position) : OfGrammar read (keyLoop read head start)
  | valueLoop (head : LoopHead) (isAwait : Bool) (start : Position) :
      OfGrammar read (valueLoop read head isAwait start)
  | forStatement : OfGrammar read (forStatement read)
  | whileStatement : OfGrammar read (whileStatement read)
  | doStatement : OfGrammar read (doStatement read)
  | ifStatement : OfGrammar read (ifStatement read)
  | caseTest : OfGrammar read (caseTest read)
  | switchCase : OfGrammar read (switchCase read)
  | switchStatement : OfGrammar read (switchStatement read)
  | catchClause : OfGrammar read (catchClause read)
  | tryStatement : OfGrammar read (tryStatement read)
  | jumpLabel : OfGrammar read jumpLabel
  | jump (make : Option Identifier → Span → Statement) : OfGrammar read (jump make)
  | returnStatement : OfGrammar read (returnStatement read)
  | throwStatement : OfGrammar read (throwStatement read)
  | withStatement : OfGrammar read (withStatement read)
  | debuggerStatement : OfGrammar read debuggerStatement
  | emptyStatement : OfGrammar read emptyStatement
  | expressionStatement : OfGrammar read (expressionStatement read)
  | labeledStatement : OfGrammar read (labeledStatement read)
  | identifierStatement (place : Place) (name : String) :
      OfGrammar read (identifierStatement read place name)
  | keywordStatement (place : Place) (word : Keyword) :
      OfGrammar read (keywordStatement read place word)
  | statement (place : Place) : OfGrammar read (statement read place)

namespace OfGrammar

variable {α : Type} {p : Production α}

theorem rescan_context (read : Lexer → Token → Token × Lexer) (s : State) :
    ∃ t, rescan read s = .ok () t ∧ t.context = s.context := ⟨_, rfl, rfl⟩

/-- A token is read again here whatever it is, which changes no context either. -/
theorem regExpLiteral_context_eq (s : State) :
    (stateOf (Grammar.regExpLiteral s)).context = s.context := by
  have start : position s = .ok s.current.start s := rfl
  obtain ⟨t, again, hc⟩ := rescan_context Lexer.rescanRegExp s
  unfold Grammar.regExpLiteral
  rw [bind_ok start, bind_ok again, ← hc]
  refine Composed.context_eq (.bind inferInstance fun token => ?_) t
  split <;> infer_instance

theorem context_eq {depth : Nat} (h : OfGrammar (read depth) p) (s : State) :
    (stateOf (p s)).context = s.context := by
  have kept {q : Production α} (h : Alike (read depth) (read depth) q q) :
      (stateOf (q s)).context = s.context := (h.composed (composed_read depth)).context_eq s
  cases h with
  | regExpLiteral => exact regExpLiteral_context_eq s
  | _ => exact kept inferInstance

end OfGrammar

/-! ## The statements of a list -/

/-- The reader that reads the statements of lists as `other` does, wherever the context is not `c`. -/
def Reader.elsewhere (read other : Reader) (c : Context) : Reader := fun n s =>
  if n = .statement .list ∧ s.context ≠ c then other n s else read n s

section Elsewhere

variable {α : Type} {reader other : Reader} {s : State}

theorem Reader.elsewhere_of_eq {c : Context} (n : Nonterminal) (h : s.context = c) :
    reader.elsewhere other c n s = reader n s := if_neg fun hn => hn.2 h

theorem Reader.elsewhere_of_ne {n : Nonterminal} (h : n ≠ .statement .list) (c : Context) :
    reader.elsewhere other c n = reader n := by
  funext s
  exact if_neg fun hn => h hn.1

theorem listStatement_elsewhere (reader other : Reader) (s : State) :
    listStatement (reader.elsewhere other s.context) s = listStatement reader s := by
  rw [Composed.listStatement_eq, Composed.listStatement_eq]
  refine bind_congr_at rfl fun token t ht => ?_
  cases ht
  split
  · rfl
  · exact reporting_congr_at (map_congr_at (Reader.elsewhere_of_eq _ rfl)) fun _ _ _ => rfl

/-- Two steps that agree in one context, and keep it, are the same when they are repeated from there. -/
theorem collectFrom_congr_at {step step' : Production (Option α)}
    (h : ∀ t, t.context = s.context → step t = step' t)
    (hk : ∀ t, (stateOf (step' t)).context = t.context) (limit : Nat) (items : List α) :
    collectFrom step limit items s = collectFrom step' limit items s := by
  induction limit generalizing items s with
  | zero => rfl
  | succ limit ih =>
      refine bind_congr_at (h s rfl) fun found t ht => ?_
      have hc := hk s
      rw [ht] at hc
      split
      · exact @ih t (fun u hu => h u (hu.trans hc)) _
      · rfl

/-- **The statements of a list are read in the context of the list**, each of them. -/
theorem statementList_elsewhere (depth : Nat) (other : Reader) (s : State) :
    statementList ((read depth).elsewhere other s.context) s = statementList (read depth) s := by
  refine collectFrom_congr_at (fun t ht => ?_) (fun t => ?_) _ _
  · rw [← ht]
    exact listStatement_elsewhere _ _ t
  · have hlist : OfGrammar (read depth) (listStatement (read depth)) := .listStatement
    exact hlist.context_eq t

theorem block_elsewhere (depth : Nat) (other : Reader) (s : State) :
    block ((read depth).elsewhere other s.context) s = block (read depth) s := by
  refine bind_congr_at rfl fun start t ht => ?_
  cases ht
  refine bind_congr_at rfl fun brace t ht => ?_
  have hc : t.context = s.context := by
    have := Composed.context_eq (inferInstance : Composed (expectMark .leftBrace)) s
    rwa [ht] at this
  refine bind_congr_at ?_ fun _ _ _ => rfl
  rw [← hc]
  exact statementList_elsewhere depth other t

/-- **The statements of a function are read in the context of the function.** -/
theorem functionBody_elsewhere (depth : Nat) (other : Reader) (isAsync isGenerator : Bool)
    (s : State) :
    functionBody ((read depth).elsewhere other ⟨isGenerator, isAsync, false⟩) isAsync isGenerator s =
      functionBody (read depth) isAsync isGenerator s := by
  unfold functionBody insideFunction allowingIn
  refine within_congr_at (within_congr_at ?_)
  exact block_elsewhere depth other { s with context := ⟨isGenerator, isAsync, false⟩ }

/-- **The statements of an arrow function are read in the context of the arrow function.** -/
theorem arrowBody_elsewhere (depth : Nat) (other : Reader) (params : Parameters) (isAsync : Bool)
    (start : Position) (s : State) :
    arrowBody ((read depth).elsewhere other ⟨false, isAsync, false⟩) params isAsync start s =
      arrowBody (read depth) params isAsync start s := by
  unfold arrowBody insideFunction allowingIn
  refine bind_congr_at rfl fun arrow t _ => ?_
  refine bind_congr_at (within_congr_at ?_) fun _ _ _ => rfl
  refine bind_congr_at rfl fun hasBrace u hu => ?_
  cases hu
  split
  · refine map_congr_at (within_congr_at ?_)
    exact block_elsewhere depth other { t with context := ⟨false, isAsync, false⟩ }
  · exact map_congr_at (congrFun (Reader.elsewhere_of_ne (n := .assignment) nofun _) _)

end Elsewhere

/-! ## The statements of a script -/

theorem scriptStatement_context_eq (depth : Nat) (s : State) :
    (stateOf (scriptStatement (read depth) s)).context = s.context := by
  have hc := (composed_read depth (.statement .topLevel)).context_eq s
  rw [scriptStatement_eq]
  cases h : read depth (.statement .topLevel) s with
  | ok statement t =>
      rw [h] at hc
      exact hc
  | error e t =>
      rw [h] at hc
      dsimp only
      rw [recover_eq]
      split
      · exact (Composed.context_eq inferInstance _).trans hc
      · exact hc

end Grammar

namespace Script

theorem context_step (depth : Nat) (s : Script) :
    (s.step depth).grammar.context = s.grammar.context := by
  have hc := Grammar.scriptStatement_context_eq depth s.grammar
  unfold step
  cases h : Grammar.scriptStatement (Grammar.read depth) s.grammar with
  | ok found t =>
      rw [h] at hc
      cases found <;> exact hc
  | error e t =>
      rw [h] at hc
      exact hc

theorem context_run (depth limit : Nat) (s : Script) :
    (s.run depth limit).grammar.context = s.grammar.context := by
  induction limit generalizing s with
  | zero => rfl
  | succ limit ih =>
      unfold run
      split
      · rfl
      · exact (ih _).trans (context_step depth s)

end Script

open Grammar in
/-- **The context is restored on every exit.** Whatever a production does, and whether it fails or not, the
context behind it is the one before it. So the statements of a list are all read in the context of the
list, whatever has happened in those before: those of a function in the context that the function has
set, those of a script in the context of a script. -/
theorem context_restored :
    (∀ (depth : Nat) {α : Type} (p : Production α), OfGrammar (Grammar.read depth) p →
      ∀ s, (stateOf (p s)).context = s.context) ∧
    (∀ depth other s,
      statementList ((Grammar.read depth).elsewhere other s.context) s =
        statementList (Grammar.read depth) s) ∧
    (∀ depth other isAsync isGenerator s,
      functionBody ((Grammar.read depth).elsewhere other ⟨isGenerator, isAsync, false⟩) isAsync
        isGenerator s = functionBody (Grammar.read depth) isAsync isGenerator s) ∧
    (∀ depth other params isAsync start s,
      arrowBody ((Grammar.read depth).elsewhere other ⟨false, isAsync, false⟩) params isAsync start s =
        arrowBody (Grammar.read depth) params isAsync start s) ∧
    ∀ depth limit name source options,
      ((Script.ofText name source options).run depth limit).grammar.context = {} :=
  ⟨fun _ _ _ h s => h.context_eq s, statementList_elsewhere, functionBody_elsewhere,
    arrowBody_elsewhere, fun depth limit _ _ _ => Script.context_run depth limit _⟩

open Grammar in
theorem context_restored_functionExpression :
    let s : State := .ofText "function* g(yield" {} default
    OfGrammar (Grammar.read 8) (functionExpression (Grammar.read 8) false s.current.start) ∧
      (stateOf (functionExpression (Grammar.read 8) false s.current.start s)).context = {} :=
  ⟨.functionExpression false _, context_restored.1 8 _ (.functionExpression false _) _⟩

end EcmaScript
