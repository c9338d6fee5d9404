import EcmaScript.Proofs.Lowering.Plain

/-!
# The whole of lowering is composed

After the few rules that run a part of lowering comes the recursion: one theorem for each of its functions,
together by recursion over the concrete tree. Operators whose left operand is still being lowered carry
the lowering of their right operand, so the theorem about expressions asks that these are composed.
-/

namespace EcmaScript

/-- Whether a key is the value of an expression. -/
def PropertyKey.isComputed : PropertyKey → Bool
  | .computed .. => true
  | _ => false

namespace Lowering

-- An instance for a rule is as large as the rule.
set_option synthInstance.maxSize 2000

namespace Composed

variable {α : Type}

/-! ## Statements and members, without what they contain -/

instance (declaration : ImportDeclaration) : Composed (importNode declaration) := by
  unfold importNode
  dsimp only
  cases declaration.defaultName <;> cases declaration.bindings <;> infer_instance

/-- The lowerings that wait for their left operand are composed. -/
def Pending (pending : List PendingOperator) : Prop := ∀ q ∈ pending, Composed q.right

theorem pending_nil : Pending [] := nofun

theorem pending_cons {q : PendingOperator} {pending : List PendingOperator} (hq : Composed q.right)
    (h : Pending pending) : Pending (q :: pending) := by
  intro r hr
  rcases List.mem_cons.mp hr with rfl | hr
  · exact hq
  · exact h r hr

theorem applyPending {pending : List PendingOperator} (h : Pending pending) (left : Node) :
    Composed (Lowering.applyPending pending left) := by
  induction pending generalizing left with
  | nil => exact pure _
  | cons q rest ih =>
      unfold Lowering.applyPending
      refine bind inferInstance fun _ => bind (h q List.mem_cons_self) fun right => ?_
      exact ih (fun r hr => h r (List.mem_cons_of_mem _ hr)) _

instance (s : Statement) {lowered : Lowering Node} [Composed lowered] :
    Composed (bodyNode s lowered) := by
  unfold bodyNode
  refine bind inferInstance fun _ => bind inferInstance fun node => ?_
  split <;> infer_instance

instance (isAwait : Bool) (span : Span) : Composed (valueLoopKind isAwait span) := by
  unfold valueLoopKind
  infer_instance

section Members

variable (key : PropertyKey) (kind : FunctionKind) (span : Span)
  {loweredKey loweredFunction : Lowering Node} [Composed loweredKey] [Composed loweredFunction]

instance : Composed (classKeyNode key loweredKey) := by
  unfold classKeyNode
  split <;> infer_instance

instance : Composed (objectMethodNode key kind span loweredKey loweredFunction) := by
  unfold objectMethodNode
  refine bind inferInstance fun _ => ?_
  split <;> infer_instance

instance : Composed (classMethodNode key kind span loweredKey loweredFunction) := by
  unfold classMethodNode
  refine bind inferInstance fun _ => ?_
  split <;> infer_instance

instance : Composed (classFieldNode key span loweredKey) := by
  unfold classFieldNode
  split <;> infer_instance

end Members

/-! ## The recursion -/

mutual

theorem expression {pending : List PendingOperator} (hp : Pending pending) (role : Role) :
    (e : Expression) → Composed (Lowering.expression pending role e)
  | .binary operator left right span => by
      have hr := expression pending_nil .value right
      rw [Lowering.expression]
      exact bind inferInstance fun _ => expression (pending_cons hr hp) .value left
  | .privateName name => by
      have happly := applyPending hp
      rw [Lowering.expression]
      infer_instance
  | .identifier _ | .this _ | .super _ | .null _ | .boolean _ _ | .number _ _ | .bigint _ _
  | .string _ | .regexp _ _ _ | .newTarget _ | .importMeta _ => by
      have happly := applyPending hp
      rw [Lowering.expression]
      infer_instance
  | .template texts substitutions span => by
      have happly := applyPending hp
      have ht := template false texts substitutions
      rw [Lowering.expression]
      infer_instance
  | .taggedTemplate tag texts substitutions templateSpan span => by
      have happly := applyPending hp
      have htag := expression pending_nil .value tag
      have ht := template true texts substitutions
      rw [Lowering.expression]
      infer_instance
  | .array elements trailingComma span => by
      have happly := applyPending hp
      have hl := arrayLiteral elements
      have hpat (kind : TargetKind) := arrayPattern kind trailingComma elements
      rw [Lowering.expression]
      refine bind inferInstance fun _ => ?_
      dsimp only
      split <;> infer_instance
  | .object properties trailingComma span => by
      have happly := applyPending hp
      have hl := objectLiteral properties
      have hpat (kind : TargetKind) := objectPattern kind properties
      rw [Lowering.expression]
      refine bind inferInstance fun _ => ?_
      dsimp only
      split <;> infer_instance
  | .function f => by
      have happly := applyPending hp
      have hf := function f
      rw [Lowering.expression]
      infer_instance
  | .classExpression c => by
      have happly := applyPending hp
      have hc := classDefinition c
      rw [Lowering.expression]
      infer_instance
  | .unary _ argument _ | .update _ _ argument _ | .await argument _ | .dynamicImport argument _
  | .paren argument _ => by
      have happly := applyPending hp
      have he := expression pending_nil .value argument
      rw [Lowering.expression]
      infer_instance
  | .assignment operator left right span => by
      have happly := applyPending hp
      have hl (role : Role) := expression pending_nil role left
      have hr := expression pending_nil .value right
      rw [Lowering.expression.eq_def]
      refine bind inferInstance fun _ => ?_
      dsimp only
      split <;> infer_instance
  | .conditional test consequent alternate span => by
      have happly := applyPending hp
      have ht := expression pending_nil .value test
      have hc := expression pending_nil .value consequent
      have ha := expression pending_nil .value alternate
      rw [Lowering.expression]
      infer_instance
  | .sequence items _ => by
      have happly := applyPending hp
      have hi := expressions items
      rw [Lowering.expression]
      infer_instance
  | .member receiver property optional span => by
      have happly := applyPending hp
      have hr := expression pending_nil .value receiver
      rw [Lowering.expression]
      infer_instance
  | .computedMember receiver key optional span => by
      have happly := applyPending hp
      have hr := expression pending_nil .value receiver
      have hk := expression pending_nil .value key
      rw [Lowering.expression]
      infer_instance
  | .call callee items trailingComma optional span => by
      have happly := applyPending hp
      have hc := expression pending_nil .callee callee
      have hi := expressions items
      rw [Lowering.expression]
      infer_instance
  | .construction callee items trailingComma span => by
      have happly := applyPending hp
      have hc := expression pending_nil .value callee
      have hi := expressions items
      rw [Lowering.expression]
      infer_instance
  | .spread argument span => by
      have happly := applyPending hp
      have he (role : Role) := expression pending_nil role argument
      rw [Lowering.expression.eq_def]
      refine bind inferInstance fun _ => ?_
      dsimp only
      split <;> infer_instance
  | .yield argument delegates span => by
      have happly := applyPending hp
      have ho := optional argument
      rw [Lowering.expression]
      infer_instance

theorem expressions : (es : List Expression) → Composed (Lowering.expressions es)
  | [] => by
      rw [Lowering.expressions]
      infer_instance
  | e :: rest => by
      have he := expression pending_nil .value e
      have hr := expressions rest
      rw [Lowering.expressions]
      infer_instance

theorem optional : (e : Option Expression) → Composed (Lowering.optional e)
  | none => by
      rw [Lowering.optional]
      infer_instance
  | some e => by
      have he := expression pending_nil .value e
      rw [Lowering.optional]
      infer_instance

theorem template (tagged : Bool) (texts : List TemplateText) :
    (es : List Expression) → Composed (Lowering.template tagged texts es)
  | [] => by
      rw [Lowering.template]
      infer_instance
  | e :: rest => by
      have he := expression pending_nil .value e
      have hr (texts : List TemplateText) := template tagged texts rest
      rw [Lowering.template.eq_def]
      dsimp only
      split <;> infer_instance

theorem arrayLiteral : (items : List ArrayElement) → Composed (Lowering.arrayLiteral items)
  | [] => by
      rw [Lowering.arrayLiteral]
      infer_instance
  | .hole span :: rest => by
      have hr := arrayLiteral rest
      rw [Lowering.arrayLiteral]
      infer_instance
  | .item e :: rest => by
      have he := expression pending_nil .value e
      have hr := arrayLiteral rest
      rw [Lowering.arrayLiteral]
      infer_instance
  | .spread argument span :: rest => by
      have he := expression pending_nil .value argument
      have hr := arrayLiteral rest
      rw [Lowering.arrayLiteral]
      infer_instance

theorem arrayPattern (kind : TargetKind) (trailingComma : Bool) :
    (items : List ArrayElement) → Composed (Lowering.arrayPattern kind trailingComma items)
  | [] => by
      rw [Lowering.arrayPattern]
      infer_instance
  | .hole span :: rest => by
      have hr := arrayPattern kind trailingComma rest
      rw [Lowering.arrayPattern]
      infer_instance
  | .item e :: rest => by
      have he := expression pending_nil (.entry kind) e
      have hr := arrayPattern kind trailingComma rest
      rw [Lowering.arrayPattern]
      infer_instance
  | .spread argument span :: rest => by
      have he := expression pending_nil (.rest kind) argument
      have hr := arrayPattern kind trailingComma rest
      rw [Lowering.arrayPattern]
      infer_instance


theorem objectLiteral : (items : List Property) → Composed (Lowering.objectLiteral items)
  | [] => by
      rw [Lowering.objectLiteral]
      infer_instance
  | .keyValue (.computed key _) value span :: rest => by
      have hk := expression pending_nil .value key
      have hv := expression pending_nil .value value
      have hr := objectLiteral rest
      rw [Lowering.objectLiteral]
      infer_instance
  | .keyValue (.name _) value span :: rest | .keyValue (.hidden _) value span :: rest
  | .keyValue (.string _) value span :: rest | .keyValue (.number _ _) value span :: rest
  | .keyValue (.bigint _ _) value span :: rest => by
      have hv := expression pending_nil .value value
      have hr := objectLiteral rest
      rw [Lowering.objectLiteral] <;> first | infer_instance | nofun
  | .shorthand name default span :: rest => by
      have ho := optional default
      have hr := objectLiteral rest
      rw [Lowering.objectLiteral]
      refine bind inferInstance fun _ => shorthand .literal ?_
      refine bind inferInstance fun _ => ?_
      dsimp only
      split <;> infer_instance
  | .method key f span :: rest => by
      have hk := keyExpression key
      have hf := function f
      have hr := objectLiteral rest
      rw [Lowering.objectLiteral]
      infer_instance
  | .spread argument span :: rest => by
      have he := expression pending_nil .value argument
      have hr := objectLiteral rest
      rw [Lowering.objectLiteral]
      infer_instance

theorem objectPattern (kind : TargetKind) :
    (items : List Property) → Composed (Lowering.objectPattern kind items)
  | [] => by
      rw [Lowering.objectPattern]
      infer_instance
  | .keyValue (.computed key _) value span :: rest => by
      have hk := expression pending_nil .value key
      have hv := expression pending_nil (.entry kind) value
      have hr := objectPattern kind rest
      rw [Lowering.objectPattern]
      infer_instance
  | .keyValue (.name _) value span :: rest | .keyValue (.hidden _) value span :: rest
  | .keyValue (.string _) value span :: rest | .keyValue (.number _ _) value span :: rest
  | .keyValue (.bigint _ _) value span :: rest => by
      have hv := expression pending_nil (.entry kind) value
      have hr := objectPattern kind rest
      rw [Lowering.objectPattern] <;> first | infer_instance | nofun
  | .shorthand name default span :: rest => by
      have ho := optional default
      have hr := objectPattern kind rest
      rw [Lowering.objectPattern]
      exact shorthand .pattern inferInstance
  | .method key f span :: rest => by
      have hr := objectPattern kind rest
      rw [Lowering.objectPattern]
      infer_instance
  | .spread argument span :: rest => by
      have he := expression pending_nil (.rest kind) argument
      have hr := objectPattern kind rest
      rw [Lowering.objectPattern]
      infer_instance

theorem function : (f : Function) → Composed (Lowering.function f)
  | .mk name items trailingComma parametersSpan body kind isAsync isGenerator span => by
      have hp (objected : Bool) := parameters trailingComma objected items
      have hb := functionBody body
      rw [Lowering.function]
      infer_instance

theorem parameters (trailingComma objected : Bool) :
    (items : List Expression) → Composed (Lowering.parameters trailingComma objected items)
  | [] => by
      rw [Lowering.parameters]
      infer_instance
  | e :: rest => by
      have he (role : Role) := expression pending_nil role e
      have hr := parameters trailingComma objected rest
      rw [Lowering.parameters]
      infer_instance

theorem functionBody : (b : FunctionBody) → Composed (Lowering.functionBody b)
  | .block b => by
      rw [Lowering.functionBody]
      exact block false b
  | .expression e => by
      rw [Lowering.functionBody]
      exact expression pending_nil .value e

theorem block (nested : Bool) : (b : Block) → Composed (Lowering.block nested b)
  | .mk items span => by
      have hi := statements nested items
      rw [Lowering.block]
      infer_instance

theorem statements (nested : Bool) :
    (items : List Statement) → Composed (Lowering.statements nested items)
  | [] => by
      rw [Lowering.statements]
      infer_instance
  | s :: rest => by
      have hs := statement s
      have hr := statements nested rest
      rw [Lowering.statements]
      infer_instance

theorem classDefinition : (c : ClassDefinition) → Composed (Lowering.classDefinition c)
  | .mk name (some heritage) members bodySpan span => by
      have hh := expression pending_nil .value heritage
      have hm := classMembers members
      rw [Lowering.classDefinition]
      dsimp only
      cases name <;> infer_instance
  | .mk name none members bodySpan span => by
      have hm := classMembers members
      rw [Lowering.classDefinition]
      dsimp only
      cases name <;> infer_instance

theorem classMembers : (members : List ClassMember) → Composed (Lowering.classMembers members)
  | [] => by
      rw [Lowering.classMembers]
      infer_instance
  | member :: rest => by
      have hm := classMember member
      have hr := classMembers rest
      rw [Lowering.classMembers]
      infer_instance

theorem classMember : (member : ClassMember) → Composed (Lowering.classMember member)
  | .method key f isStatic span => by
      have hk := keyExpression key
      have hf := function f
      rw [Lowering.classMember]
      infer_instance
  | .field key (some value) isStatic span => by
      have hk := keyExpression key
      have hv := expression pending_nil .value value
      rw [Lowering.classMember]
      infer_instance
  | .field key none isStatic span => by
      have hk := keyExpression key
      rw [Lowering.classMember]
      infer_instance
  | .staticBlock (.mk items span) => by
      have hi := statements false items
      rw [Lowering.classMember]
      infer_instance

theorem keyExpression : (key : PropertyKey) → Composed (Lowering.keyExpression key)
  | .computed e _ => by
      rw [Lowering.keyExpression]
      exact expression pending_nil .value e
  | .name _ | .hidden _ | .string _ | .number _ _ | .bigint _ _ => by
      rw [Lowering.keyExpression] <;> first | infer_instance | nofun

theorem declaration (loop : Option String) :
    (d : Declaration) → Composed (Lowering.declaration loop d)
  | .mk kind declarators span => by
      have hd := declaratorList kind loop declarators
      rw [Lowering.declaration]
      infer_instance

theorem declaratorList (kind : VariableKind) (loop : Option String) :
    (items : List Declarator) → Composed (Lowering.declaratorList kind loop items)
  | [] => by
      rw [Lowering.declaratorList]
      infer_instance
  | .mk target value span :: rest => by
      have ht := expression pending_nil (.target .binding) target
      have hv := optional value
      have hr := declaratorList kind loop rest
      rw [Lowering.declaratorList]
      infer_instance

theorem loopTarget (loop : String) : (head : LoopHead) → Composed (Lowering.loopTarget loop head)
  | .declaration d => by
      have hd := declaration (some loop) d
      rw [Lowering.loopTarget]
      infer_instance
  | .expression e => by
      rw [Lowering.loopTarget]
      exact expression pending_nil (.target .assignment) e

theorem loopPart (span : Span) : (e : Option Expression) → Composed (Lowering.loopPart span e)
  | some e => by
      rw [Lowering.loopPart]
      exact expression pending_nil .value e
  | none => by
      rw [Lowering.loopPart]
      infer_instance

theorem switchCases : (cases : List SwitchCase) → Composed (Lowering.switchCases cases)
  | [] => by
      rw [Lowering.switchCases]
      infer_instance
  | .mk test items span :: rest => by
      have hi := statements true items
      have ht := optional test
      have hr := switchCases rest
      rw [Lowering.switchCases]
      infer_instance

theorem catchClause : (clause : CatchClause) → Composed (Lowering.catchClause clause)
  | .mk (some e) gap body span => by
      have he := expression pending_nil (.target .binding) e
      have hb := block true body
      rw [Lowering.catchClause]
      infer_instance
  | .mk none gap body span => by
      have hb := block true body
      rw [Lowering.catchClause]
      infer_instance

theorem statement : (s : Statement) → Composed (Lowering.statement s)
  | .empty _ | .error _ | .continue _ _ | .break _ _ | .debugger _ | .import _
  | .exportNamed _ _ _ _ | .exportAll _ _ _ => by
      rw [Lowering.statement]
      infer_instance
  | .block b => by
      rw [Lowering.statement]
      exact block true b
  | .variable d => by
      rw [Lowering.statement]
      exact declaration none d
  | .expression e _ | .throw e _ => by
      have he := expression pending_nil .value e
      rw [Lowering.statement]
      infer_instance
  | .conditional test consequent (some alternate) _ => by
      have ht := expression pending_nil .value test
      have hc := statement consequent
      have ha := statement alternate
      rw [Lowering.statement]
      infer_instance
  | .conditional test consequent none _ => by
      have ht := expression pending_nil .value test
      have hc := statement consequent
      rw [Lowering.statement]
      infer_instance
  | .doWhile body e _ | .while e body _ | .with e body _ => by
      have he := expression pending_nil .value e
      have hb := statement body
      rw [Lowering.statement]
      infer_instance
  | .for (some (.declaration d)) test update body _ => by
      have hd := declaration none d
      have ht (span : Span) := loopPart span test
      have hu (span : Span) := loopPart span update
      have hb := statement body
      rw [Lowering.statement]
      infer_instance
  | .for (some (.expression e)) test update body _ => by
      have he := expression pending_nil .value e
      have ht (span : Span) := loopPart span test
      have hu (span : Span) := loopPart span update
      have hb := statement body
      rw [Lowering.statement]
      infer_instance
  | .for none test update body _ => by
      have ht (span : Span) := loopPart span test
      have hu (span : Span) := loopPart span update
      have hb := statement body
      rw [Lowering.statement]
      infer_instance
  | .forIn head e body _ => by
      have hh (loop : String) := loopTarget loop head
      have he := expression pending_nil .value e
      have hb := statement body
      rw [Lowering.statement]
      infer_instance
  | .forOf head e body _ _ => by
      have hh (loop : String) := loopTarget loop head
      have he := expression pending_nil .value e
      have hb := statement body
      rw [Lowering.statement]
      infer_instance
  | .return argument _ => by
      have ho := optional argument
      rw [Lowering.statement]
      infer_instance
  | .switch discriminant cases _ => by
      have hd := expression pending_nil .value discriminant
      have hc := switchCases cases
      rw [Lowering.statement]
      infer_instance
  | .labeled label body _ => by
      have hb := statement body
      rw [Lowering.statement]
      infer_instance
  | .try (.mk items _) (some clause) (some finalizer) _ => by
      have hi := statements true items
      have hc := catchClause clause
      have hf := block true finalizer
      rw [Lowering.statement]
      infer_instance
  | .try (.mk items _) (some clause) none _ => by
      have hi := statements true items
      have hc := catchClause clause
      rw [Lowering.statement]
      infer_instance
  | .try (.mk items _) none (some finalizer) _ => by
      have hi := statements true items
      have hf := block true finalizer
      rw [Lowering.statement]
      infer_instance
  | .try (.mk items _) none none _ => by
      have hi := statements true items
      rw [Lowering.statement]
      infer_instance
  | .function f => by
      rw [Lowering.statement]
      exact function f
  | .classDeclaration c => by
      rw [Lowering.statement]
      exact classDefinition c
  | .exportDeclaration s _ => by
      have hs := statement s
      rw [Lowering.statement]
      infer_instance
  | .exportDefault value _ => by
      have hs := statement value
      rw [Lowering.statement.eq_def]
      dsimp only
      refine bind inferInstance fun _ => ?_
      cases value with
      | expression e _ =>
          have he := expression pending_nil .value e
          infer_instance
      | _ => infer_instance

end

/-- The root looks at what was put off, and objects to it. -/
theorem script (nodes : List Node) (span : Span) : Composed (Lowering.script nodes span) := by
  have e : Lowering.script nodes span = (do
      let isModule ← Lowering.look (·.isModule)
      let pending ← Lowering.look (·.pendingAwaits)
      if isModule then return .branch .script span [.branch .moduleBody span nodes]
      else
        pending.reverse.forM fun deferred => error deferred.1 deferred.2
        return .branch .script span nodes) := rfl
  rw [e]
  infer_instance

end Composed

end Lowering

end EcmaScript
