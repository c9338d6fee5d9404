import EcmaScript.Proofs.Scope.Rules

/-!
# Lowering objects to every occurrence once

Lowering a construct meets the occurrences in it, and nothing else: one theorem for each function of the
recursion, together by recursion over the concrete tree. The enclosures of a place are an argument of each of
them, and each construct that opens a scope adds its own; which use is made of a construct tells the role it is
lowered in.
-/

namespace EcmaScript

open IsPart (part)

namespace Lowering

-- An instance for a rule is as large as the rule.
set_option synthInstance.maxSize 2000

open Occurrence

namespace Objects

/-- A combined assignment reads what it stores into. -/
theorem inner_assignment {operator : AssignmentOperator} (h : operator ≠ .assign) (es : List Enclosure) (use : Use)
    (left right : Expression) (span : Span) :
    Occurrence.inner ⟨es, use, .expression (.assignment operator left right span)⟩ =
      [⟨es, .value, .expression left⟩, ⟨es, .value, .expression right⟩] := by
  cases operator with
  | assign => exact absurd rfl h
  | _ => rfl

attribute [local simp] Occurrence.inner Piece.parts Piece.partsAll Part.pieces Expression.pieces ArrayElement.pieces
  Property.pieces PropertyKey.pieces FunctionBody.pieces Function.pieces ClassDefinition.pieces ClassMember.pieces
  Block.pieces Declarator.pieces Declaration.pieces LoopHead.pieces SwitchCase.pieces CatchClause.pieces
  Statement.pieces Use.ofEntry Use.ofRest Use.ofSpread add_assoc IsPart.part Function.comp_def

mutual

theorem expression (es : List Enclosure) (role : Role) : (e : Expression) →
    Objects es (census ⟨es, role.use, .expression e⟩) (Lowering.expression [] role e)
  | .binary operator left right span => by
      have hr := expression es .value right
      have hl : Objects es (census ⟨es, .ofOperand operator left, .expression left⟩) (operand operator left) := by
        have hleft := expression es .value left
        cases left with
        | privateName name =>
            rw [operand, Use.ofOperand]
            by_cases ho : operator = .isIn
            · rw [if_pos ho, if_pos (by simpa using ho)]
              exact privateOperand name
            · rw [if_neg ho, if_neg (by simpa using ho)]
              exact misplacedPrivateName name nofun
        | _ => exact hleft
      rw [expression_binary]
      exact meets_only rfl rfl (by simp)
  | .privateName name => by
      rw [Lowering.expression]
      exact bindApart inferInstance fun _ => (misplacedPrivateName name (by cases role <;> nofun)).instead
  | .identifier _ | .this _ | .super _ | .null _ | .boolean _ _ | .number _ _ | .bigint _ _
  | .string _ | .regexp _ _ _ | .newTarget _ | .importMeta _ => by
      rw [Lowering.expression]
      exact meets_only rfl rfl (by simp)
  | .template texts substitutions span => by
      have ht := template es false texts substitutions
      rw [Lowering.expression]
      exact meets_only rfl rfl (by simp)
  | .taggedTemplate tag texts substitutions templateSpan span => by
      have htag := expression es .value tag
      have ht := template es true texts substitutions
      rw [Lowering.expression]
      exact meets_only rfl rfl (by simp)
  | .array elements trailingComma span => by
      have hl := arrayLiteral es elements
      have hpattern (kind : TargetKind) := arrayPattern es kind trailingComma elements
      have huse := Role.isPattern_use role
      rw [Lowering.expression]
      cases hk : role.targetKind? with
      | some kind =>
          rw [hk] at huse
          exact meets_only rfl rfl (by simp [huse])
      | none =>
          rw [hk] at huse
          exact meets_only rfl rfl (by simp [huse])
  | .object properties trailingComma span => by
      have hl := objectLiteral es properties
      have hpattern (kind : TargetKind) := objectPattern es kind properties
      have huse := Role.isPattern_use role
      rw [Lowering.expression]
      cases hk : role.targetKind? with
      | some kind =>
          rw [hk] at huse
          exact meets_only rfl rfl (by simp [huse])
      | none =>
          rw [hk] at huse
          exact meets_only rfl rfl (by simp [huse])
  | .function f => by
      have hf := function es f
      rw [Lowering.expression]
      exact meets_only rfl rfl (by simp)
  | .classExpression d => by
      have hc := classDefinition es d
      rw [Lowering.expression]
      exact meets_only rfl rfl (by simp)
  | .unary _ argument _ | .update _ _ argument _ | .dynamicImport argument _ | .paren argument _ => by
      have he := expression es .value argument
      rw [Lowering.expression]
      exact meets_only rfl rfl (by simp)
  | .await argument span => by
      have hc : Objects es {⟨es, role.use, .expression (.await argument span)⟩}
          (Lowering.checkAwait span.start .awaitOutsideAsync) := checkAwait rfl rfl rfl
      have he := expression es .value argument
      rw [Lowering.expression, census_eq]
      exact of_eq (by simp)
  | .assignment operator left right span => by
      have hl (role : Role) := expression es role left
      have hr := expression es .value right
      by_cases hdefault : ∃ place, role = .parameter place ∧ operator = .assign
      · obtain ⟨place, rfl, rfl⟩ := hdefault
        rw [Lowering.expression.eq_def, census_eq]
        refine bindApart inferInstance fun _ => bindApart inferInstance fun _ => ?_
        -- the default is judged when it has been lowered
        refine of_eq (h := (hl _).bind fun _ => hr.bindValue fun s =>
          (checkDefault place left span (bears_expression es .value right s)).instead) ?_
        rw [← add_assoc, add_comm]
        simp
      · rw [Lowering.expression.eq_def, census_eq]
        refine (checkAssignment role operator left right span fun place hp ho => ?_).bind fun _ => ?_
        · exact hdefault ⟨place, hp, ho⟩
        dsimp only
        split
        · exact of_eq (by simp)
        next place => exact absurd ⟨place, rfl, rfl⟩ hdefault
        · exact of_eq (by simp)
        next _ _ hentry hparameter hrest =>
          by_cases ho : operator = .assign
          · subst ho
            have huse : role.use ≠ .rest := by
              cases role with
              | rest kind => exact absurd rfl (hrest kind rfl)
              | _ => nofun
            simp only [BEq.rfl, if_true]
            exact of_eq (by simp [huse])
          · simp only [beq_eq_false_iff_ne.mpr ho, Bool.false_eq_true, if_false]
            exact of_eq (by rw [inner_assignment ho]; simp)
  | .conditional test consequent alternate span => by
      have ht := expression es .value test
      have hc := expression es .value consequent
      have ha := expression es .value alternate
      rw [Lowering.expression]
      exact meets_only rfl rfl (by simp)
  | .sequence items _ => by
      have hi := expressions es items
      rw [Lowering.expression]
      cases items with
      | nil => exact meets_only rfl rfl (by simp)
      | cons e rest => exact meets_only rfl rfl (by simp)
  | .member receiver property optional span => by
      have hm (place : ChainPlace) (node : Node) :
          Objects es {⟨es, role.use, .expression (.member receiver property optional span)⟩}
            (Lowering.memberNode place node property (role == .callee) span) :=
        memberNode place node receiver property optional (role == .callee) span (by cases role <;> rfl)
      have he := expression es .value receiver
      rw [Lowering.expression, census_eq]
      exact of_eq (by simp [add_comm])
  | .computedMember receiver key optional span => by
      have he := expression es .value receiver
      have hk := expression es .value key
      rw [Lowering.expression]
      exact meets_only rfl rfl (by simp)
  | .call callee items trailingComma optional span => by
      have hc := expression es .callee callee
      have hi := expressions es items
      rw [Lowering.expression]
      exact meets_only rfl rfl (by simp)
  | .construction callee items trailingComma span => by
      have hc := expression es .value callee
      have hi := expressions es items
      rw [Lowering.expression]
      exact meets_only rfl rfl (by simp)
  | .spread argument span => by
      have he (role : Role) := expression es role argument
      rw [Lowering.expression.eq_def, census_eq]
      refine bindApart inferInstance fun _ => ?_
      dsimp only
      split
      next place =>
        refine bindApart inferInstance fun _ => restParameter place argument span ?_
        exact of_eq (by simp)
      next _ h =>
        cases role with
        | parameter place => exact absurd rfl (h place)
        | _ => exact irrelevant rfl rfl (of_eq (by simp))
  | .yield argument delegates span => by
      have ho := optional es argument
      rw [Lowering.expression, census_eq]
      refine bindApart inferInstance fun _ => checkYield argument delegates span ?_
      cases argument with
      | none => exact of_eq (by simp)
      | some e => exact of_eq (by simp)

theorem expressions (es : List Enclosure) : (items : List Expression) →
    Objects es (censusAll (items.map fun e => ⟨es, .value, .expression e⟩)) (Lowering.expressions items)
  | [] => by
      rw [Lowering.expressions]
      exact of_eq (by simp)
  | e :: rest => by
      have he := expression es .value e
      have hr := expressions es rest
      rw [Lowering.expressions]
      exact of_eq (by simp)

theorem optional (es : List Enclosure) : (e : Option Expression) →
    Objects es (censusAll (e.toList.map fun e => ⟨es, .value, .expression e⟩)) (Lowering.optional e)
  | none => by
      rw [Lowering.optional]
      exact of_eq (by simp)
  | some e => by
      have he := expression es .value e
      rw [Lowering.optional]
      exact of_eq (by simp)

theorem template (es : List Enclosure) (tagged : Bool) (texts : List TemplateText) :
    (items : List Expression) →
      Objects es (censusAll ((Piece.partsAll (Piece.template texts items)).map fun p => ⟨es, .value, p⟩))
        (Lowering.template tagged texts items)
  | [] => by
      rw [Lowering.template, Piece.template, Piece.partsAll_texts]
      exact of_eq censusAll_nil.symm
  | e :: rest => by
      have he := expression es .value e
      have hr (texts : List TemplateText) := template es tagged texts rest
      cases texts <;> rw [Lowering.template] <;> exact of_eq (by simp [Piece.template])

theorem arrayLiteral (es : List Enclosure) : (items : List ArrayElement) →
    Objects es (censusAll (items.map fun e => ⟨es, .value, .element e⟩)) (Lowering.arrayLiteral items)
  | [] => by
      rw [Lowering.arrayLiteral]
      exact of_eq (by simp)
  | .hole span :: rest => by
      have hr := arrayLiteral es rest
      rw [Lowering.arrayLiteral, List.map_cons, censusAll_cons]
      exact meets rfl rfl (by simp)
  | .item e :: rest => by
      have he := expression es .value e
      have hr := arrayLiteral es rest
      rw [Lowering.arrayLiteral, List.map_cons, censusAll_cons]
      exact meets rfl rfl (by simp)
  | .spread argument span :: rest => by
      have he := expression es .value argument
      have hr := arrayLiteral es rest
      rw [Lowering.arrayLiteral, List.map_cons, censusAll_cons]
      exact meets rfl rfl (by simp)

theorem arrayPattern (es : List Enclosure) (kind : TargetKind) (trailingComma : Bool) :
    (items : List ArrayElement) →
      Objects es (censusAll (listed es (.listed · trailingComma) (items.map part)))
        (Lowering.arrayPattern kind trailingComma items)
  | [] => by
      rw [Lowering.arrayPattern]
      exact of_eq (by simp)
  | .hole span :: rest => by
      have hr := arrayPattern es kind trailingComma rest
      rw [Lowering.arrayPattern, List.map_cons, listed_cons, censusAll_cons]
      exact meets rfl rfl (by simp)
  | .item e :: rest => by
      have he := expression es (.entry kind) e
      have hr := arrayPattern es kind trailingComma rest
      rw [Lowering.arrayPattern, List.map_cons, listed_cons, censusAll_cons]
      exact meets rfl rfl (by simp)
  | .spread argument span :: rest => by
      have he := expression es (.rest kind) argument
      have hr := arrayPattern es kind trailingComma rest
      rw [Lowering.arrayPattern, List.map_cons, listed_cons, censusAll_cons, census_eq, List.isEmpty_map, add_assoc]
      refine bindApart inferInstance fun _ => (checkRest rfl rfl).bind fun _ => ?_
      exact of_eq (by simp)

theorem objectLiteral (es : List Enclosure) : (items : List Property) →
    Objects es (censusAll (items.map fun e => ⟨es, .value, .property e⟩)) (Lowering.objectLiteral items)
  | [] => by
      rw [Lowering.objectLiteral]
      exact of_eq (by simp)
  | .keyValue (.computed key s) value span :: rest => by
      have hk := keyExpression es (.computed key s)
      have hv := expression es .value value
      have hr := objectLiteral es rest
      rw [Lowering.keyExpression] at hk
      rw [Lowering.objectLiteral, List.map_cons, censusAll_cons]
      exact meets rfl rfl (by simp)
  | .keyValue (.name _) value span :: rest | .keyValue (.hidden _) value span :: rest
  | .keyValue (.string _) value span :: rest | .keyValue (.number _ _) value span :: rest
  | .keyValue (.bigint _ _) value span :: rest => by
      have hv := expression es .value value
      have hr := objectLiteral es rest
      rw [List.map_cons, censusAll_cons]
      rw [Lowering.objectLiteral]
      · exact meets_plainKey rfl rfl rfl rfl (by simp)
      · nofun
  | .shorthand name default span :: rest => by
      have ho := optional es default
      have hr := objectLiteral es rest
      rw [Lowering.objectLiteral, List.map_cons, censusAll_cons]
      refine bindApart inferInstance fun _ => shorthand .literal ?_
      cases default <;> exact meets rfl rfl (by simp)
  | .method key f span :: rest => by
      have hm := objectMethodNode (keyExpression es key) (function es f) f.kind span
      have hr := objectLiteral es rest
      rw [Lowering.objectLiteral, List.map_cons, censusAll_cons]
      exact meets rfl rfl (by simp)
  | .spread argument span :: rest => by
      have he := expression es .value argument
      have hr := objectLiteral es rest
      rw [Lowering.objectLiteral, List.map_cons, censusAll_cons]
      exact meets rfl rfl (by simp)

theorem objectPattern (es : List Enclosure) (kind : TargetKind) : (items : List Property) →
    Objects es (censusAll (listed es (.listed · false) (items.map part))) (Lowering.objectPattern kind items)
  | [] => by
      rw [Lowering.objectPattern]
      exact of_eq (by simp)
  | .keyValue (.computed key s) value span :: rest => by
      have hk := keyExpression es (.computed key s)
      have hv := expression es (.entry kind) value
      have hr := objectPattern es kind rest
      rw [Lowering.keyExpression] at hk
      rw [Lowering.objectPattern, List.map_cons, listed_cons, censusAll_cons]
      exact meets rfl rfl (by simp)
  | .keyValue (.name _) value span :: rest | .keyValue (.hidden _) value span :: rest
  | .keyValue (.string _) value span :: rest | .keyValue (.number _ _) value span :: rest
  | .keyValue (.bigint _ _) value span :: rest => by
      have hv := expression es (.entry kind) value
      have hr := objectPattern es kind rest
      rw [List.map_cons, listed_cons, censusAll_cons]
      rw [Lowering.objectPattern]
      · exact meets_plainKey rfl rfl rfl rfl (by simp)
      · nofun
  | .shorthand name default span :: rest => by
      have ho := optional es default
      have hr := objectPattern es kind rest
      rw [Lowering.objectPattern, List.map_cons, listed_cons, censusAll_cons]
      refine shorthand .pattern ?_
      cases default <;> exact meets rfl rfl (by simp)
  | .method key f span :: rest => by
      have hr := objectPattern es kind rest
      rw [Lowering.objectPattern, List.map_cons, listed_cons, censusAll_cons]
      exact meets rfl rfl (by simp)
  | .spread argument span :: rest => by
      have he := expression es (.rest kind) argument
      have hr := objectPattern es kind rest
      rw [Lowering.objectPattern, List.map_cons, listed_cons, censusAll_cons, census_eq, List.isEmpty_map, add_assoc]
      refine bindApart inferInstance fun _ => (checkRest rfl rfl).bind fun _ => ?_
      exact of_eq (by simp)

theorem function (es : List Enclosure) : (f : Function) →
    Objects es (census ⟨es, .value, .function f⟩) (Lowering.function f)
  | .mk name items trailingComma parametersSpan body kind isAsync isGenerator span => by
      have hp := parameters (.boundary (boundaryOf kind) isGenerator isAsync :: es) trailingComma
        (accessorProblem? kind items).isSome items
      have hb := functionBody (.boundary (boundaryOf kind) isGenerator isAsync :: es) body
      have hin : Objects (.boundary (boundaryOf kind) isGenerator isAsync :: es) _ (do
          let objected ← Lowering.checkAccessor kind items parametersSpan
          let nodes ← Lowering.parameters trailingComma objected items
          let params ← parametersNode nodes trailingComma parametersSpan
          let bodyNode ← Lowering.functionBody body
          return (params, bodyNode)) :=
        checkAccessor es name items trailingComma parametersSpan body kind isAsync isGenerator span inferInstance
      rw [Lowering.function, census_eq]
      exact of_eq (by simp)

theorem parameters (es : List Enclosure) (trailingComma objected : Bool) : (items : List Expression) →
    Objects es (censusAll (listed es (fun isLast => .parameter ⟨isLast, trailingComma, objected⟩) (items.map part)))
      (Lowering.parameters trailingComma objected items)
  | [] => by
      rw [Lowering.parameters]
      exact of_eq (by simp)
  | e :: rest => by
      have he := expression es (.parameter ⟨rest.isEmpty, trailingComma, objected⟩) e
      have hr := parameters es trailingComma objected rest
      rw [Lowering.parameters]
      exact of_eq (by simp)

theorem functionBody (es : List Enclosure) : (b : FunctionBody) →
    Objects es (censusAll ((Piece.partsAll b.pieces).map fun p => ⟨es, .value, p⟩)) (Lowering.functionBody b)
  | .block b => by
      have hb := block es false b
      rw [Lowering.functionBody]
      exact of_eq (by simp)
  | .expression e => by
      have he := expression es .value e
      rw [Lowering.functionBody]
      exact of_eq (by simp)

theorem block (es : List Enclosure) (nested : Bool) : (b : Block) →
    Objects es (census ⟨es, .value, .block b⟩) (Lowering.block nested b)
  | .mk items span => by
      have hi := statements es nested items
      rw [Lowering.block]
      exact meets_only rfl rfl (by simp)

theorem statements (es : List Enclosure) (nested : Bool) : (items : List Statement) →
    Objects es (censusAll (items.map fun s => ⟨es, .value, .statement s⟩)) (Lowering.statements nested items)
  | [] => by
      rw [Lowering.statements]
      exact of_eq (by simp)
  | s :: rest => by
      have hs := statement es s
      have hr := statements es nested rest
      rw [Lowering.statements]
      exact of_eq (by simp)

theorem classDefinition (es : List Enclosure) : (d : ClassDefinition) →
    Objects es (census ⟨es, .value, .classDefinition d⟩) (Lowering.classDefinition d)
  | .mk name (some heritage) members bodySpan span => by
      have hh := expression es .value heritage
      have hm := classMembers (.classBody members :: es) members
      rw [Lowering.classDefinition]
      cases name <;> exact meets_only rfl rfl (by simp)
  | .mk name none members bodySpan span => by
      have hm := classMembers (.classBody members :: es) members
      rw [Lowering.classDefinition]
      cases name <;> exact meets_only rfl rfl (by simp)

theorem classMembers (es : List Enclosure) : (members : List ClassMember) →
    Objects es (censusAll (members.map fun m => ⟨es, .value, .classMember m⟩)) (Lowering.classMembers members)
  | [] => by
      rw [Lowering.classMembers]
      exact of_eq (by simp)
  | member :: rest => by
      have hm := classMember es member
      have hr := classMembers es rest
      rw [Lowering.classMembers]
      exact of_eq (by simp)

theorem classMember (es : List Enclosure) : (member : ClassMember) →
    Objects es (census ⟨es, .value, .classMember member⟩) (Lowering.classMember member)
  | .method key f isStatic span => by
      have hm := classMethodNode (keyExpression es key) (function es f) f.kind span
      rw [Lowering.classMember]
      exact meets_only rfl rfl (by simp)
  | .field key (some value) isStatic span => by
      have hk := classFieldNode (keyExpression es key) span
      have hv := expression (.boundary .fieldInitializer false false :: es) .value value
      rw [Lowering.classMember]
      exact meets_only rfl rfl (by simp)
  | .field key none isStatic span => by
      have hk := classFieldNode (keyExpression es key) span
      rw [Lowering.classMember]
      exact meets_only rfl rfl (by simp)
  | .staticBlock (.mk items span) => by
      have hi := statements (.boundary .staticBlock false false :: es) false items
      have hb : Objects (.boundary .staticBlock false false :: es)
          (census ⟨.boundary .staticBlock false false :: es, .value, .block (.mk items span)⟩)
          (Lowering.statements false items) := meets_only rfl rfl (by simp)
      rw [Lowering.classMember]
      exact meets_only rfl rfl (by simp)

theorem keyExpression (es : List Enclosure) : (key : PropertyKey) →
    Objects es (census ⟨es, .value, .key key⟩) (Lowering.keyExpression key)
  | .computed e _ => by
      have he := expression es .value e
      rw [Lowering.keyExpression]
      exact meets_only rfl rfl (by simp)
  | .name _ | .hidden _ | .string _ | .number _ _ | .bigint _ _ => by
      rw [Lowering.keyExpression]
      · exact plainKey_only rfl
      · nofun

theorem declaration (es : List Enclosure) (loop : Option String) : (d : Declaration) →
    Objects es (census ⟨es, .value, .declaration d⟩) (Lowering.declaration loop d)
  | .mk kind declarators span => by
      have hd := declaratorList es kind loop declarators
      rw [Lowering.declaration]
      exact meets_only rfl rfl (by simp)

theorem declaratorList (es : List Enclosure) (kind : VariableKind) (loop : Option String) :
    (items : List Declarator) →
      Objects es (censusAll (items.map fun d => ⟨es, .value, .declarator d⟩))
        (Lowering.declaratorList kind loop items)
  | [] => by
      rw [Lowering.declaratorList]
      exact of_eq (by simp)
  | .mk target value span :: rest => by
      have ht := expression es (.target .binding) target
      have hv := optional es value
      have hr := declaratorList es kind loop rest
      rw [Lowering.declaratorList, List.map_cons, censusAll_cons]
      exact meets rfl rfl (by simp)

theorem loopTarget (es : List Enclosure) (loop : String) : (head : LoopHead) →
    Objects es (census ⟨es, .target, .loopHead head⟩) (Lowering.loopTarget loop head)
  | .declaration d => by
      have hd := declaration es (some loop) d
      rw [Lowering.loopTarget]
      exact meets_only rfl rfl (by simp)
  | .expression e => by
      have he := expression es (.target .assignment) e
      rw [Lowering.loopTarget]
      exact meets_only rfl rfl (by simp)

theorem loopPart (es : List Enclosure) (span : Span) : (e : Option Expression) →
    Objects es (censusAll (e.toList.map fun e => ⟨es, .value, .expression e⟩)) (Lowering.loopPart span e)
  | some e => by
      have he := expression es .value e
      rw [Lowering.loopPart]
      exact of_eq (by simp)
  | none => by
      rw [Lowering.loopPart]
      exact of_eq (by simp)

theorem switchCases (es : List Enclosure) : (cases : List SwitchCase) →
    Objects es (censusAll (cases.map fun s => ⟨es, .value, .switchCase s⟩)) (Lowering.switchCases cases)
  | [] => by
      rw [Lowering.switchCases]
      exact of_eq (by simp)
  | .mk test items span :: rest => by
      have hi := statements es true items
      have ht := optional es test
      have hr := switchCases es rest
      rw [Lowering.switchCases, List.map_cons, censusAll_cons]
      -- the statements are lowered before the test
      cases test <;> exact meets rfl rfl (by simp [add_left_comm])

theorem catchClause (es : List Enclosure) : (clause : CatchClause) →
    Objects es (census ⟨es, .value, .catchClause clause⟩) (Lowering.catchClause clause)
  | .mk (some e) gap body span => by
      have he := expression es (.target .binding) e
      have hb := block es true body
      rw [Lowering.catchClause]
      exact meets_only rfl rfl (by simp)
  | .mk none gap body span => by
      have hb := block es true body
      rw [Lowering.catchClause]
      exact meets_only rfl rfl (by simp)

theorem statement (es : List Enclosure) : (s : Statement) →
    Objects es (census ⟨es, .value, .statement s⟩) (Lowering.statement s)
  | .empty _ | .error _ | .debugger _ => by
      rw [Lowering.statement]
      exact meets_only rfl rfl (by simp)
  | .continue label span => by
      rw [Lowering.statement]
      exact continueNode label span
  | .break label span => by
      rw [Lowering.statement]
      exact breakNode label span
  | .import _ | .exportNamed _ _ _ _ | .exportAll _ _ _ => by
      rw [Lowering.statement]
      exact meets_only rfl rfl (by simp)
  | .block b => by
      have hb := block es true b
      rw [Lowering.statement]
      exact meets_only rfl rfl (by simp)
  | .variable d => by
      have hd := declaration es none d
      rw [Lowering.statement]
      exact meets_only rfl rfl (by simp)
  | .expression e _ | .throw e _ => by
      have he := expression es .value e
      rw [Lowering.statement]
      exact meets_only rfl rfl (by simp)
  | .conditional test consequent (some alternate) _ => by
      have ht := expression es .value test
      have hc := statement es consequent
      have ha := statement es alternate
      rw [Lowering.statement]
      exact meets_only rfl rfl (by simp)
  | .conditional test consequent none _ => by
      have ht := expression es .value test
      have hc := statement es consequent
      rw [Lowering.statement]
      exact meets_only rfl rfl (by simp)
  | .doWhile body e _ | .while e body _ => by
      have he := expression es .value e
      have hb := statement (.loopBody :: es) body
      rw [Lowering.statement]
      exact meets_only rfl rfl (by simp)
  | .with e body _ => by
      have he := expression es .value e
      have hb := statement es body
      rw [Lowering.statement]
      exact meets_only rfl rfl (by simp)
  | .for (some (.declaration d)) test update body _ => by
      have hd := declaration es none d
      have hh : Objects es (census ⟨es, .value, .loopHead (.declaration d)⟩) (Lowering.declaration none d) :=
        meets_only rfl rfl (by simp)
      have ht (span : Span) := loopPart es span test
      have hu (span : Span) := loopPart es span update
      have hb := statement (.loopBody :: es) body
      rw [Lowering.statement]
      cases test <;> cases update <;> exact meets_only rfl rfl (by simp)
  | .for (some (.expression e)) test update body _ => by
      have he := expression es .value e
      have hh : Objects es (census ⟨es, .value, .loopHead (.expression e)⟩) (Lowering.expression [] .value e) :=
        meets_only rfl rfl (by simp)
      have ht (span : Span) := loopPart es span test
      have hu (span : Span) := loopPart es span update
      have hb := statement (.loopBody :: es) body
      rw [Lowering.statement]
      cases test <;> cases update <;> exact meets_only rfl rfl (by simp)
  | .for none test update body _ => by
      have ht (span : Span) := loopPart es span test
      have hu (span : Span) := loopPart es span update
      have hb := statement (.loopBody :: es) body
      rw [Lowering.statement]
      cases test <;> cases update <;> exact meets_only rfl rfl (by simp)
  | .forIn head e body _ | .forOf head e body _ _ => by
      have hh (loop : String) := loopTarget es loop head
      have he := expression es .value e
      have hb := statement (.loopBody :: es) body
      rw [Lowering.statement]
      exact meets_only rfl rfl (by simp)
  | .return argument _ => by
      have ho := optional es argument
      rw [Lowering.statement]
      cases argument <;> exact meets_only rfl rfl (by simp)
  | .switch discriminant cases _ => by
      have hd := expression es .value discriminant
      have hc := switchCases (.switchBody :: es) cases
      rw [Lowering.statement]
      exact meets_only rfl rfl (by simp)
  | .labeled label body span => by
      have hb := insideLabel label body span (statement (.labelled label.name body :: es) body)
      rw [Lowering.statement, census_eq]
      exact of_eq (by simp)
  | .try (.mk items span) (some clause) (some finalizer) _ => by
      have hi := statements es true items
      have hb : Objects es (census ⟨es, .value, .block (.mk items span)⟩) (Lowering.statements true items) :=
        meets_only rfl rfl (by simp)
      have hc := catchClause es clause
      have hf := block es true finalizer
      rw [Lowering.statement]
      exact meets_only rfl rfl (by simp)
  | .try (.mk items span) (some clause) none _ => by
      have hi := statements es true items
      have hb : Objects es (census ⟨es, .value, .block (.mk items span)⟩) (Lowering.statements true items) :=
        meets_only rfl rfl (by simp)
      have hc := catchClause es clause
      rw [Lowering.statement]
      exact meets_only rfl rfl (by simp)
  | .try (.mk items span) none (some finalizer) _ => by
      have hi := statements es true items
      have hb : Objects es (census ⟨es, .value, .block (.mk items span)⟩) (Lowering.statements true items) :=
        meets_only rfl rfl (by simp)
      have hf := block es true finalizer
      rw [Lowering.statement]
      exact meets_only rfl rfl (by simp)
  | .try (.mk items span) none none _ => by
      have hi := statements es true items
      have hb : Objects es (census ⟨es, .value, .block (.mk items span)⟩) (Lowering.statements true items) :=
        meets_only rfl rfl (by simp)
      rw [Lowering.statement]
      exact meets_only rfl rfl (by simp)
  | .function f => by
      have hf := function es f
      rw [Lowering.statement]
      exact meets_only rfl rfl (by simp)
  | .classDeclaration d => by
      have hc := classDefinition es d
      rw [Lowering.statement]
      exact meets_only rfl rfl (by simp)
  | .exportDeclaration s span => by
      have hs := statement es s
      rw [Lowering.statement]
      exact meets_only rfl rfl (by simp)
  | .exportDefault value span => by
      have hs := statement es value
      rw [Lowering.statement.eq_def]
      dsimp only
      cases value with
      | expression e s =>
          have he := expression es .value e
          have hs : Objects es (census ⟨es, .value, .statement (.expression e s)⟩) (Lowering.expression [] .value e) :=
            meets_only rfl rfl (by simp)
          exact meets_only rfl rfl (by simp)
      | _ => exact meets_only rfl rfl (by simp)

end

end Objects

end Lowering

end EcmaScript
