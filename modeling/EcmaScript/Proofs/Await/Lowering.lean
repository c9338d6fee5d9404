import EcmaScript.Proofs.Await.Account
import EcmaScript.Proofs.Lowering.Tree

/-!
# Lowering meets every site once

Lowering a construct meets the sites in it, with the meaning that `await` has at each of them: one theorem for
each function of the recursion, together by recursion over the concrete tree. Which role a construct plays
tells how it is read. Operators whose left operand is being lowered bring the sites of their right operands
with them; an assignment or a pattern that is stored into drops them, but there are none where it stands.
-/

namespace EcmaScript

namespace Lowering

-- An instance for a rule is as large as the rule.
set_option synthInstance.maxSize 2000

open IsPart (part)

/-- The lowerings that wait for their left operand meet the sites. -/
inductive Pending (c : AwaitContext) : Set Site → List PendingOperator → Prop
  | nil : Pending c ∅ []
  | cons {U V : Set Site} {q : PendingOperator} {rest : List PendingOperator} :
      Accounts c U q.right → Pending c V rest → Pending c (U ∪ V) (q :: rest)

namespace Accounts

variable {c x : AwaitContext} {U V : Set Site} {α : Type} {p : Lowering α}

/-- A combined assignment reads what it stores into. -/
theorem inner_assignment {operator : AssignmentOperator} (h : operator ≠ .assign) (reading : Reading)
    (left right : Expression) (span : Span) :
    Site.inner ⟨c, reading, .expression (.assignment operator left right span)⟩ =
      [⟨c, .value, .expression left⟩, ⟨c, .value, .expression right⟩] := by
  cases operator with
  | assign => exact absurd rfl h
  | _ => rfl

/-! ## Rules with parts -/

theorem applyPending {pending : List PendingOperator} (h : Pending c V pending) (left : Node) :
    Accounts c V (Lowering.applyPending pending left) := by
  induction h generalizing left with
  | nil => exact instPlain (h := .pure left)
  | @cons U V q rest hq _ ih =>
      unfold Lowering.applyPending
      infer_instance

instance (s : Statement) {lowered : Lowering Node} [Accounts c U lowered] :
    Accounts c U (bodyNode s lowered) := by
  unfold bodyNode
  have hlast (node : Node) : Plain (match s with
      | .block _ => (pure node : Lowering Node)
      | _ => pure (.branch .block s.span [node])) := by
    split <;> infer_instance
  infer_instance

/-- Whether a shorthand may have its name is no question about `await`. -/
theorem shorthand (place : ShorthandPlace) {position : Position} {name : String} (h : Accounts c U p) :
    Accounts c U (do
      if ← isReservedShorthand name then error position (place.problem name)
      p) := by
  rw [Composed.shorthand_eq]
  exact bindPlain (.look _) fun _ => bindPlain (.remark _ rfl) fun _ => h

instance (span : Span) : Plain (valueLoopKind false span) := by
  show Plain (do
    record .forOf span.start
    pure NodeKind.forOf)
  infer_instance

theorem valueLoopKind {q : Site} {span : Span} (hc : q.context = c)
    (ha : q.await? = some (span.start, .forAwaitOutsideAsync)) (hm : q.marksModule = false) :
    Accounts c {q} (Lowering.valueLoopKind true span) := by
  have hcheck := checkAwait hc ha hm
  show Accounts c {q} (do
    record .forAwaitOf span.start
    Lowering.checkAwait span.start .forAwaitOutsideAsync
    pure NodeKind.forAwaitOf)
  infer_instance

theorem importNode (d : ImportDeclaration) :
    Accounts c {⟨x, .value, .statement (.import d)⟩} (Lowering.importNode d) := by
  have hm := markModule (c := c) (q := ⟨x, .value, .statement (.import d)⟩) rfl rfl d.span.start
  unfold Lowering.importNode
  dsimp only
  cases d.defaultName <;> cases d.bindings <;> infer_instance

/-- A key that is not computed holds nothing. -/
theorem plainKey {key : PropertyKey} (h : key.isComputed = false) [hp : Accounts c V p] :
    Accounts c (Site.within ⟨x, .value, .key key⟩ ∪ V) p := by
  refine meets (U := V) rfl rfl ?_
  cases key with
  | computed e s => cases h
  | _ => exact (Site.withinAll_nil.symm ▸ Set.empty_union V).symm

theorem plainKey_only {key : PropertyKey} (h : key.isComputed = false) [Plain p] :
    Accounts c (Site.within ⟨x, .value, .key key⟩) p :=
  Set.union_empty (Site.within _) ▸ plainKey h

section Members

variable {key : PropertyKey} {loweredKey loweredFunction : Lowering Node}

theorem classKeyNode (h : Accounts c (Site.within ⟨c, .value, .key key⟩) loweredKey) :
    Accounts c (Site.within ⟨c, .value, .key key⟩) (Lowering.classKeyNode key loweredKey) := by
  cases key with
  | computed e s =>
      dsimp only [Lowering.classKeyNode]
      infer_instance
  | _ =>
      dsimp only [Lowering.classKeyNode]
      exact plainKey_only rfl

theorem objectMethodNode (h : Accounts c (Site.within ⟨c, .value, .key key⟩) loweredKey)
    (hf : Accounts c V loweredFunction) (kind : FunctionKind) (span : Span) :
    Accounts c (Site.within ⟨c, .value, .key key⟩ ∪ V)
      (Lowering.objectMethodNode key kind span loweredKey loweredFunction) := by
  cases key with
  | computed e s =>
      dsimp only [Lowering.objectMethodNode]
      infer_instance
  | _ =>
      dsimp only [Lowering.objectMethodNode]
      exact plainKey rfl

theorem classMethodNode (h : Accounts c (Site.within ⟨c, .value, .key key⟩) loweredKey)
    (hf : Accounts c V loweredFunction) (kind : FunctionKind) (span : Span) :
    Accounts c (Site.within ⟨c, .value, .key key⟩ ∪ V)
      (Lowering.classMethodNode key kind span loweredKey loweredFunction) := by
  have hc := classKeyNode h
  unfold Lowering.classMethodNode
  split
  · exact plainKey rfl
  · exact plainKey rfl
  · infer_instance

theorem classFieldNode (h : Accounts c (Site.within ⟨c, .value, .key key⟩) loweredKey) (span : Span) :
    Accounts c (Site.within ⟨c, .value, .key key⟩) (Lowering.classFieldNode key span loweredKey) := by
  have hc := classKeyNode h
  unfold Lowering.classFieldNode
  split
  · exact plainKey_only rfl
  · exact plainKey_only rfl
  · infer_instance

end Members

/-- A construct that starts with a key which is not computed. -/
theorem meets_plainKey {q : Site} {key : PropertyKey} {rest : List Site} (ha : q.await? = none)
    (hm : q.marksModule = false) (hi : q.inner = ⟨x, .value, .key key⟩ :: rest)
    (hk : key.isComputed = false) [h : Accounts c U p] (e : U = Site.withinAll rest ∪ V) :
    Accounts c (q.within ∪ V) p := by
  have h' := plainKey (c := c) (x := x) hk (p := p)
  exact meets ha hm (by rw [hi, Site.withinAll_cons, e, Set.union_assoc])

/-! ## The recursion -/

attribute [local simp] Site.inner Piece.parts Piece.partsAll Part.pieces Expression.pieces
  ArrayElement.pieces Property.pieces PropertyKey.pieces FunctionBody.pieces Function.pieces
  ClassDefinition.pieces ClassMember.pieces Block.pieces Declarator.pieces Declaration.pieces
  LoopHead.pieces SwitchCase.pieces CatchClause.pieces Statement.pieces
  Reading.ofEntry Reading.ofRest Set.union_assoc Set.insert_union IsPart.part Function.comp_def

mutual

theorem expression (c : AwaitContext) {V : Set Site} {pending : List PendingOperator}
    (hp : Pending c V pending) (role : Role) (hr : V = ∅ ∨ role.reading = .value) :
    (e : Expression) →
      Accounts c (Site.within ⟨c, role.reading, .expression e⟩ ∪ V) (Lowering.expression pending role e)
  | .binary operator left right span => by
      have he := expression c .nil .value (.inl rfl) right
      have hl := @expression c _ _ (.cons (q := ⟨operator, _, span⟩) he hp) .value (.inr rfl) left
      rw [Lowering.expression]
      exact meets rfl rfl (by simp)
  | .privateName name => by
      have happly := applyPending hp
      rw [Lowering.expression]
      exact meets rfl rfl (by simp)
  | .identifier _ | .this _ | .super _ | .null _ | .boolean _ _ | .number _ _ | .bigint _ _
  | .string _ | .regexp _ _ _ | .newTarget _ => by
      have happly := applyPending hp
      rw [Lowering.expression]
      exact meets rfl rfl (by simp)
  | .importMeta span => by
      have happly := applyPending hp
      have hm := markModule (c := c) (q := ⟨c, role.reading, .expression (.importMeta span)⟩) rfl rfl span.start
      rw [Lowering.expression, Site.within_eq]
      exact of_eq (by simp)
  | .template texts substitutions span => by
      have happly := applyPending hp
      have ht := template c false texts substitutions
      rw [Lowering.expression]
      exact meets rfl rfl (by simp)
  | .taggedTemplate tag texts substitutions templateSpan span => by
      have happly := applyPending hp
      have htag := expression c .nil .value (.inl rfl) tag
      have ht := template c true texts substitutions
      rw [Lowering.expression]
      exact meets rfl rfl (by simp)
  | .array elements trailingComma span => by
      have happly := applyPending hp
      have hl := arrayLiteral c elements
      have hpattern (reading : Reading) (h : reading ≠ .value) (kind : TargetKind) :=
        arrayPattern c h kind trailingComma elements
      rw [Lowering.expression]
      cases hk : role.targetKind? with
      | some kind =>
          have hreading : role.reading ≠ .value := fun h => by
            rw [(Role.targetKind?_eq_none role).mpr h] at hk
            cases hk
          obtain rfl := hr.resolve_right hreading
          have hpattern := hpattern _ hreading
          exact meets rfl rfl (by simp)
      | none =>
          rw [(Role.targetKind?_eq_none role).mp hk]
          exact meets rfl rfl (by simp)
  | .object properties trailingComma span => by
      have happly := applyPending hp
      have hl := objectLiteral c properties
      have hpattern (reading : Reading) (h : reading ≠ .value) (kind : TargetKind) :=
        objectPattern c h kind properties
      rw [Lowering.expression]
      cases hk : role.targetKind? with
      | some kind =>
          have hreading : role.reading ≠ .value := fun h => by
            rw [(Role.targetKind?_eq_none role).mpr h] at hk
            cases hk
          obtain rfl := hr.resolve_right hreading
          have hpattern := hpattern _ hreading
          exact meets rfl rfl (by simp)
      | none =>
          rw [(Role.targetKind?_eq_none role).mp hk]
          exact meets rfl rfl (by simp)
  | .function f => by
      have happly := applyPending hp
      have hf := function c f
      rw [Lowering.expression]
      exact meets rfl rfl (by simp)
  | .classExpression d => by
      have happly := applyPending hp
      have hc := classDefinition c d
      rw [Lowering.expression]
      exact meets rfl rfl (by simp)
  | .unary _ argument _ | .update _ _ argument _ | .dynamicImport argument _ | .paren argument _ => by
      have happly := applyPending hp
      have he := expression c .nil .value (.inl rfl) argument
      rw [Lowering.expression]
      exact meets rfl rfl (by simp)
  | .await argument span => by
      have happly := applyPending hp
      have hc := checkAwait (c := c) (q := ⟨c, role.reading, .expression (.await argument span)⟩) rfl rfl rfl
      have he := expression c .nil .value (.inl rfl) argument
      rw [Lowering.expression, Site.within_eq]
      exact of_eq (by simp)
  | .assignment operator left right span => by
      have happly := applyPending hp
      have hl (role : Role) := expression c .nil role (.inl rfl) left
      have hv := expression c .nil .value (.inl rfl) right
      rw [Lowering.expression.eq_def]
      refine bindPlain inferInstance fun _ => ?_
      dsimp only
      split
      · obtain rfl := hr.resolve_right nofun
        exact meets rfl rfl (by simp)
      · obtain rfl := hr.resolve_right nofun
        exact meets rfl rfl (by simp)
      · obtain rfl := hr.resolve_right nofun
        exact meets rfl rfl (by simp)
      next _ _ hentry hparameter hrest =>
        by_cases ho : operator = .assign
        · subst ho
          have hreading : role.reading ≠ .rest := by
            cases role with
            | rest kind => exact absurd rfl (hrest kind rfl)
            | _ => nofun
          simp only [BEq.rfl, if_true]
          exact meets rfl rfl (by simp [hreading])
        · simp only [beq_eq_false_iff_ne.mpr ho, Bool.false_eq_true, if_false]
          exact meets rfl rfl (by rw [inner_assignment ho]; simp)
  | .conditional test consequent alternate span => by
      have happly := applyPending hp
      have ht := expression c .nil .value (.inl rfl) test
      have hc := expression c .nil .value (.inl rfl) consequent
      have ha := expression c .nil .value (.inl rfl) alternate
      rw [Lowering.expression]
      exact meets rfl rfl (by simp)
  | .sequence items _ => by
      have happly := applyPending hp
      have hi := expressions c items
      rw [Lowering.expression]
      cases items with
      | nil => exact meets rfl rfl (by simp)
      | cons e es => exact meets rfl rfl (by simp)
  | .member receiver property optional span => by
      have happly := applyPending hp
      have he := expression c .nil .value (.inl rfl) receiver
      rw [Lowering.expression]
      exact meets rfl rfl (by simp)
  | .computedMember receiver key optional span => by
      have happly := applyPending hp
      have he := expression c .nil .value (.inl rfl) receiver
      have hk := expression c .nil .value (.inl rfl) key
      rw [Lowering.expression]
      exact meets rfl rfl (by simp)
  | .call callee items trailingComma optional span => by
      have happly := applyPending hp
      have hc := expression c .nil .callee (.inl rfl) callee
      have hi := expressions c items
      rw [Lowering.expression]
      exact meets rfl rfl (by simp)
  | .construction callee items trailingComma span => by
      have happly := applyPending hp
      have hc := expression c .nil .value (.inl rfl) callee
      have hi := expressions c items
      rw [Lowering.expression]
      exact meets rfl rfl (by simp)
  | .spread argument span => by
      have happly := applyPending hp
      have he (role : Role) := expression c .nil role (.inl rfl) argument
      rw [Lowering.expression.eq_def]
      refine bindPlain inferInstance fun _ => ?_
      dsimp only
      split
      · obtain rfl := hr.resolve_right nofun
        exact meets rfl rfl (by simp)
      next _ h =>
        have hreading : role.reading ≠ .parameter := by
          cases role with
          | parameter place => exact absurd rfl (h place)
          | _ => nofun
        exact meets rfl rfl (by simp [hreading])
  | .yield argument delegates span => by
      have happly := applyPending hp
      have ho := optional c argument
      rw [Lowering.expression]
      cases argument with
      | none => exact meets rfl rfl (by simp)
      | some e => exact meets rfl rfl (by simp)

theorem expressions (c : AwaitContext) : (es : List Expression) →
    Accounts c (Site.withinAll (es.map fun e => ⟨c, .value, .expression e⟩)) (Lowering.expressions es)
  | [] => by
      rw [Lowering.expressions]
      exact of_eq (by simp)
  | e :: rest => by
      have he := expression c .nil .value (.inl rfl) e
      have hr := expressions c rest
      rw [Lowering.expressions]
      exact of_eq (by simp)

theorem optional (c : AwaitContext) : (e : Option Expression) →
    Accounts c (Site.withinAll (e.toList.map fun e => ⟨c, .value, .expression e⟩)) (Lowering.optional e)
  | none => by
      rw [Lowering.optional]
      exact of_eq (by simp)
  | some e => by
      have he := expression c .nil .value (.inl rfl) e
      rw [Lowering.optional]
      exact of_eq (by simp)

theorem template (c : AwaitContext) (tagged : Bool) (texts : List TemplateText) :
    (es : List Expression) →
      Accounts c (Site.withinAll ((Piece.partsAll (Piece.template texts es)).map fun p => ⟨c, .value, p⟩))
        (Lowering.template tagged texts es)
  | [] => by
      rw [Lowering.template, Piece.template, Piece.partsAll_texts]
      exact of_eq Site.withinAll_nil.symm
  | e :: rest => by
      have he := expression c .nil .value (.inl rfl) e
      have hr (texts : List TemplateText) := template c tagged texts rest
      cases texts <;> rw [Lowering.template] <;> exact of_eq (by simp [Piece.template])

theorem arrayLiteral (c : AwaitContext) : (items : List ArrayElement) →
    Accounts c (Site.withinAll (items.map fun e => ⟨c, .value, .element e⟩)) (Lowering.arrayLiteral items)
  | [] => by
      rw [Lowering.arrayLiteral]
      exact of_eq (by simp)
  | .hole span :: rest => by
      have hr := arrayLiteral c rest
      rw [Lowering.arrayLiteral, List.map_cons, Site.withinAll_cons]
      exact meets rfl rfl (by simp)
  | .item e :: rest => by
      have he := expression c .nil .value (.inl rfl) e
      have hr := arrayLiteral c rest
      rw [Lowering.arrayLiteral, List.map_cons, Site.withinAll_cons]
      exact meets rfl rfl (by simp)
  | .spread argument span :: rest => by
      have he := expression c .nil .value (.inl rfl) argument
      have hr := arrayLiteral c rest
      rw [Lowering.arrayLiteral, List.map_cons, Site.withinAll_cons]
      exact meets rfl rfl (by simp)

theorem arrayPattern (c : AwaitContext) {reading : Reading} (h : reading ≠ .value) (kind : TargetKind)
    (trailingComma : Bool) : (items : List ArrayElement) →
      Accounts c (Site.withinAll (items.map fun e => ⟨c, reading, .element e⟩))
        (Lowering.arrayPattern kind trailingComma items)
  | [] => by
      rw [Lowering.arrayPattern]
      exact of_eq (by simp)
  | .hole span :: rest => by
      have hr := arrayPattern c h kind trailingComma rest
      rw [Lowering.arrayPattern, List.map_cons, Site.withinAll_cons]
      exact meets rfl rfl (by simp)
  | .item e :: rest => by
      have he := expression c .nil (.entry kind) (.inl rfl) e
      have hr := arrayPattern c h kind trailingComma rest
      rw [Lowering.arrayPattern, List.map_cons, Site.withinAll_cons]
      exact meets rfl rfl (by simp)
  | .spread argument span :: rest => by
      have he := expression c .nil (.rest kind) (.inl rfl) argument
      have hr := arrayPattern c h kind trailingComma rest
      rw [Lowering.arrayPattern, List.map_cons, Site.withinAll_cons]
      exact meets rfl rfl (by simp)

theorem objectLiteral (c : AwaitContext) : (items : List Property) →
    Accounts c (Site.withinAll (items.map fun e => ⟨c, .value, .property e⟩)) (Lowering.objectLiteral items)
  | [] => by
      rw [Lowering.objectLiteral]
      exact of_eq (by simp)
  | .keyValue (.computed key s) value span :: rest => by
      have hk := keyExpression c (.computed key s)
      have hv := expression c .nil .value (.inl rfl) value
      have hr := objectLiteral c rest
      rw [Lowering.keyExpression] at hk
      rw [Lowering.objectLiteral, List.map_cons, Site.withinAll_cons]
      exact meets rfl rfl (by simp)
  | .keyValue (.name _) value span :: rest | .keyValue (.hidden _) value span :: rest
  | .keyValue (.string _) value span :: rest | .keyValue (.number _ _) value span :: rest
  | .keyValue (.bigint _ _) value span :: rest => by
      have hv := expression c .nil .value (.inl rfl) value
      have hr := objectLiteral c rest
      rw [List.map_cons, Site.withinAll_cons]
      rw [Lowering.objectLiteral]
      · exact meets_plainKey rfl rfl rfl rfl (by simp)
      · nofun
  | .shorthand name default span :: rest => by
      have ho := optional c default
      have hr := objectLiteral c rest
      rw [Lowering.objectLiteral, List.map_cons, Site.withinAll_cons]
      refine bindPlain inferInstance fun _ => shorthand .literal ?_
      cases default <;> exact meets rfl rfl (by simp)
  | .method key f span :: rest => by
      have hm := objectMethodNode (keyExpression c key) (function c f) f.kind span
      have hr := objectLiteral c rest
      rw [Lowering.objectLiteral, List.map_cons, Site.withinAll_cons]
      exact meets rfl rfl (by simp)
  | .spread argument span :: rest => by
      have he := expression c .nil .value (.inl rfl) argument
      have hr := objectLiteral c rest
      rw [Lowering.objectLiteral, List.map_cons, Site.withinAll_cons]
      exact meets rfl rfl (by simp)

theorem objectPattern (c : AwaitContext) {reading : Reading} (h : reading ≠ .value) (kind : TargetKind) :
    (items : List Property) →
      Accounts c (Site.withinAll (items.map fun e => ⟨c, reading, .property e⟩))
        (Lowering.objectPattern kind items)
  | [] => by
      rw [Lowering.objectPattern]
      exact of_eq (by simp)
  | .keyValue (.computed key s) value span :: rest => by
      have hk := keyExpression c (.computed key s)
      have hv := expression c .nil (.entry kind) (.inl rfl) value
      have hr := objectPattern c h kind rest
      rw [Lowering.keyExpression] at hk
      rw [Lowering.objectPattern, List.map_cons, Site.withinAll_cons]
      exact meets rfl rfl (by simp)
  | .keyValue (.name _) value span :: rest | .keyValue (.hidden _) value span :: rest
  | .keyValue (.string _) value span :: rest | .keyValue (.number _ _) value span :: rest
  | .keyValue (.bigint _ _) value span :: rest => by
      have hv := expression c .nil (.entry kind) (.inl rfl) value
      have hr := objectPattern c h kind rest
      rw [List.map_cons, Site.withinAll_cons]
      rw [Lowering.objectPattern]
      · exact meets_plainKey rfl rfl rfl rfl (by simp)
      · nofun
  | .shorthand name default span :: rest => by
      have ho := optional c default
      have hr := objectPattern c h kind rest
      rw [Lowering.objectPattern, List.map_cons, Site.withinAll_cons]
      refine shorthand .pattern ?_
      cases default <;> exact meets rfl rfl (by simp)
  | .method key f span :: rest => by
      have hr := objectPattern c h kind rest
      rw [Lowering.objectPattern, List.map_cons, Site.withinAll_cons]
      exact meets rfl rfl (by simp [h])
  | .spread argument span :: rest => by
      have he := expression c .nil (.rest kind) (.inl rfl) argument
      have hr := objectPattern c h kind rest
      rw [Lowering.objectPattern, List.map_cons, Site.withinAll_cons]
      exact meets rfl rfl (by simp)

theorem function (c : AwaitContext) : (f : Function) →
    Accounts c (Site.within ⟨c, .value, .function f⟩) (Lowering.function f)
  | .mk name items trailingComma parametersSpan body kind isAsync isGenerator span => by
      have hp (objected : Bool) := parameters (.ofFunction isAsync) trailingComma objected items
      have hb := functionBody (.ofFunction isAsync) body
      rw [Lowering.function]
      exact meets_only rfl rfl (by simp)

theorem parameters (c : AwaitContext) (trailingComma objected : Bool) : (items : List Expression) →
    Accounts c (Site.withinAll (items.map fun e => ⟨c, .parameter, .expression e⟩))
      (Lowering.parameters trailingComma objected items)
  | [] => by
      rw [Lowering.parameters]
      exact of_eq (by simp)
  | e :: rest => by
      have he (place : ParameterPlace) := expression c .nil (.parameter place) (.inl rfl) e
      have hr := parameters c trailingComma objected rest
      rw [Lowering.parameters]
      exact of_eq (by simp)

theorem functionBody (c : AwaitContext) : (b : FunctionBody) →
    Accounts c (Site.withinAll ((Piece.partsAll b.pieces).map fun p => ⟨c, .value, p⟩)) (Lowering.functionBody b)
  | .block b => by
      have hb := block c false b
      rw [Lowering.functionBody]
      exact of_eq (by simp)
  | .expression e => by
      have he := expression c .nil .value (.inl rfl) e
      rw [Lowering.functionBody]
      exact of_eq (by simp)

theorem block (c : AwaitContext) (nested : Bool) : (b : Block) →
    Accounts c (Site.within ⟨c, .value, .block b⟩) (Lowering.block nested b)
  | .mk items span => by
      have hi := statements c nested items
      rw [Lowering.block]
      exact meets_only rfl rfl (by simp)

theorem statements (c : AwaitContext) (nested : Bool) : (items : List Statement) →
    Accounts c (Site.withinAll (items.map fun s => ⟨c, .value, .statement s⟩)) (Lowering.statements nested items)
  | [] => by
      rw [Lowering.statements]
      exact of_eq (by simp)
  | s :: rest => by
      have hs := statement c s
      have hr := statements c nested rest
      rw [Lowering.statements]
      exact of_eq (by simp)

theorem classDefinition (c : AwaitContext) : (d : ClassDefinition) →
    Accounts c (Site.within ⟨c, .value, .classDefinition d⟩) (Lowering.classDefinition d)
  | .mk name (some heritage) members bodySpan span => by
      have hh := expression c .nil .value (.inl rfl) heritage
      have hm := classMembers c members
      rw [Lowering.classDefinition]
      cases name <;> exact meets_only rfl rfl (by simp)
  | .mk name none members bodySpan span => by
      have hm := classMembers c members
      rw [Lowering.classDefinition]
      cases name <;> exact meets_only rfl rfl (by simp)

theorem classMembers (c : AwaitContext) : (members : List ClassMember) →
    Accounts c (Site.withinAll (members.map fun m => ⟨c, .value, .classMember m⟩))
      (Lowering.classMembers members)
  | [] => by
      rw [Lowering.classMembers]
      exact of_eq (by simp)
  | member :: rest => by
      have hm := classMember c member
      have hr := classMembers c rest
      rw [Lowering.classMembers]
      exact of_eq (by simp)

theorem classMember (c : AwaitContext) : (member : ClassMember) →
    Accounts c (Site.within ⟨c, .value, .classMember member⟩) (Lowering.classMember member)
  | .method key f isStatic span => by
      have hm := classMethodNode (keyExpression c key) (function c f) f.kind span
      rw [Lowering.classMember]
      exact meets_only rfl rfl (by simp)
  | .field key (some value) isStatic span => by
      have hk := classFieldNode (keyExpression c key) span
      have hv := expression .denied .nil .value (.inl rfl) value
      rw [Lowering.classMember]
      exact meets_only rfl rfl (by simp)
  | .field key none isStatic span => by
      have hk := classFieldNode (keyExpression c key) span
      rw [Lowering.classMember]
      exact meets_only rfl rfl (by simp)
  | .staticBlock (.mk items span) => by
      have hi := statements .denied false items
      have hb : Accounts .denied (Site.within ⟨.denied, .value, .block (.mk items span)⟩)
          (Lowering.statements false items) := meets_only rfl rfl (by simp)
      rw [Lowering.classMember]
      exact meets_only rfl rfl (by simp)

theorem keyExpression (c : AwaitContext) : (key : PropertyKey) →
    Accounts c (Site.within ⟨c, .value, .key key⟩) (Lowering.keyExpression key)
  | .computed e _ => by
      have he := expression c .nil .value (.inl rfl) e
      rw [Lowering.keyExpression]
      exact meets_only rfl rfl (by simp)
  | .name _ | .hidden _ | .string _ | .number _ _ | .bigint _ _ => by
      rw [Lowering.keyExpression]
      · exact plainKey_only rfl
      · nofun

theorem declaration (c : AwaitContext) (loop : Option String) : (d : Declaration) →
    Accounts c (Site.within ⟨c, .value, .declaration d⟩) (Lowering.declaration loop d)
  | .mk kind declarators span => by
      have hd := declaratorList c kind loop declarators
      rw [Lowering.declaration]
      exact meets_only rfl rfl (by simp)

theorem declaratorList (c : AwaitContext) (kind : VariableKind) (loop : Option String) :
    (items : List Declarator) →
      Accounts c (Site.withinAll (items.map fun d => ⟨c, .value, .declarator d⟩))
        (Lowering.declaratorList kind loop items)
  | [] => by
      rw [Lowering.declaratorList]
      exact of_eq (by simp)
  | .mk target value span :: rest => by
      have ht := expression c .nil (.target .binding) (.inl rfl) target
      have hv := optional c value
      have hr := declaratorList c kind loop rest
      rw [Lowering.declaratorList, List.map_cons, Site.withinAll_cons]
      exact meets rfl rfl (by simp)

theorem loopTarget (c : AwaitContext) (loop : String) : (head : LoopHead) →
    Accounts c (Site.within ⟨c, .target, .loopHead head⟩) (Lowering.loopTarget loop head)
  | .declaration d => by
      have hd := declaration c (some loop) d
      rw [Lowering.loopTarget]
      exact meets_only rfl rfl (by simp)
  | .expression e => by
      have he := expression c .nil (.target .assignment) (.inl rfl) e
      rw [Lowering.loopTarget]
      exact meets_only rfl rfl (by simp)

theorem loopPart (c : AwaitContext) (span : Span) : (e : Option Expression) →
    Accounts c (Site.withinAll (e.toList.map fun e => ⟨c, .value, .expression e⟩)) (Lowering.loopPart span e)
  | some e => by
      have he := expression c .nil .value (.inl rfl) e
      rw [Lowering.loopPart]
      exact of_eq (by simp)
  | none => by
      rw [Lowering.loopPart]
      exact of_eq (by simp)

theorem switchCases (c : AwaitContext) : (cases : List SwitchCase) →
    Accounts c (Site.withinAll (cases.map fun s => ⟨c, .value, .switchCase s⟩)) (Lowering.switchCases cases)
  | [] => by
      rw [Lowering.switchCases]
      exact of_eq (by simp)
  | .mk test items span :: rest => by
      have hi := statements c true items
      have ht := optional c test
      have hr := switchCases c rest
      rw [Lowering.switchCases, List.map_cons, Site.withinAll_cons]
      -- the statements are lowered before the test
      cases test <;> exact meets rfl rfl (by simp [Set.union_left_comm])

theorem catchClause (c : AwaitContext) : (clause : CatchClause) →
    Accounts c (Site.within ⟨c, .value, .catchClause clause⟩) (Lowering.catchClause clause)
  | .mk (some e) gap body span => by
      have he := expression c .nil (.target .binding) (.inl rfl) e
      have hb := block c true body
      rw [Lowering.catchClause]
      exact meets_only rfl rfl (by simp)
  | .mk none gap body span => by
      have hb := block c true body
      rw [Lowering.catchClause]
      exact meets_only rfl rfl (by simp)

theorem statement (c : AwaitContext) : (s : Statement) →
    Accounts c (Site.within ⟨c, .value, .statement s⟩) (Lowering.statement s)
  | .empty _ | .error _ | .debugger _ => by
      rw [Lowering.statement]
      exact meets_only rfl rfl (by simp)
  | .continue label _ => by
      rw [Lowering.statement]
      cases label <;> exact meets_only rfl rfl (by simp)
  | .break label _ => by
      rw [Lowering.statement]
      cases label <;> exact meets_only rfl rfl (by simp)
  | .import d => by
      have hd := importNode (c := c) (x := c) d
      rw [Lowering.statement, Site.within_eq]
      exact of_eq (by simp)
  | .exportNamed specifiers specifiersSpan source span => by
      have hm := markModule (c := c)
        (q := ⟨c, .value, .statement (.exportNamed specifiers specifiersSpan source span)⟩) rfl rfl span.start
      rw [Lowering.statement, Site.within_eq]
      exact of_eq (by simp)
  | .exportAll name source span => by
      have hm := markModule (c := c) (q := ⟨c, .value, .statement (.exportAll name source span)⟩) rfl rfl span.start
      rw [Lowering.statement, Site.within_eq]
      cases name <;> exact of_eq (by simp)
  | .block b => by
      have hb := block c true b
      rw [Lowering.statement]
      exact meets_only rfl rfl (by simp)
  | .variable d => by
      have hd := declaration c none d
      rw [Lowering.statement]
      exact meets_only rfl rfl (by simp)
  | .expression e _ | .throw e _ => by
      have he := expression c .nil .value (.inl rfl) e
      rw [Lowering.statement]
      exact meets_only rfl rfl (by simp)
  | .conditional test consequent (some alternate) _ => by
      have ht := expression c .nil .value (.inl rfl) test
      have hc := statement c consequent
      have ha := statement c alternate
      rw [Lowering.statement]
      exact meets_only rfl rfl (by simp)
  | .conditional test consequent none _ => by
      have ht := expression c .nil .value (.inl rfl) test
      have hc := statement c consequent
      rw [Lowering.statement]
      exact meets_only rfl rfl (by simp)
  | .doWhile body e _ | .while e body _ | .with e body _ => by
      have he := expression c .nil .value (.inl rfl) e
      have hb := statement c body
      rw [Lowering.statement]
      exact meets_only rfl rfl (by simp)
  | .for (some (.declaration d)) test update body _ => by
      have hd := declaration c none d
      have hh : Accounts c (Site.within ⟨c, .value, .loopHead (.declaration d)⟩) (Lowering.declaration none d) :=
        meets_only rfl rfl (by simp)
      have ht (span : Span) := loopPart c span test
      have hu (span : Span) := loopPart c span update
      have hb := statement c body
      rw [Lowering.statement]
      cases test <;> cases update <;> exact meets_only rfl rfl (by simp)
  | .for (some (.expression e)) test update body _ => by
      have he := expression c .nil .value (.inl rfl) e
      have hh : Accounts c (Site.within ⟨c, .value, .loopHead (.expression e)⟩) (Lowering.expression [] .value e) :=
        meets_only rfl rfl (by simp)
      have ht (span : Span) := loopPart c span test
      have hu (span : Span) := loopPart c span update
      have hb := statement c body
      rw [Lowering.statement]
      cases test <;> cases update <;> exact meets_only rfl rfl (by simp)
  | .for none test update body _ => by
      have ht (span : Span) := loopPart c span test
      have hu (span : Span) := loopPart c span update
      have hb := statement c body
      rw [Lowering.statement]
      cases test <;> cases update <;> exact meets_only rfl rfl (by simp)
  | .forIn head e body _ => by
      have hh (loop : String) := loopTarget c loop head
      have he := expression c .nil .value (.inl rfl) e
      have hb := statement c body
      rw [Lowering.statement]
      exact meets_only rfl rfl (by simp)
  | .forOf head e body false _ => by
      have hh (loop : String) := loopTarget c loop head
      have he := expression c .nil .value (.inl rfl) e
      have hb := statement c body
      rw [Lowering.statement]
      exact meets_only rfl rfl (by simp)
  | .forOf head e body true span => by
      have hh (loop : String) := loopTarget c loop head
      have he := expression c .nil .value (.inl rfl) e
      have hb := statement c body
      have hk := valueLoopKind (c := c) (q := ⟨c, .value, .statement (.forOf head e body true span)⟩) rfl rfl rfl
      rw [Lowering.statement, Site.within_eq]
      exact of_eq (by simp)
  | .return argument _ => by
      have ho := optional c argument
      rw [Lowering.statement]
      cases argument <;> exact meets_only rfl rfl (by simp)
  | .switch discriminant cases _ => by
      have hd := expression c .nil .value (.inl rfl) discriminant
      have hc := switchCases c cases
      rw [Lowering.statement]
      exact meets_only rfl rfl (by simp)
  | .labeled label body _ => by
      have hb := statement c body
      rw [Lowering.statement]
      exact meets_only rfl rfl (by simp)
  | .try (.mk items span) (some clause) (some finalizer) _ => by
      have hi := statements c true items
      have hb : Accounts c (Site.within ⟨c, .value, .block (.mk items span)⟩) (Lowering.statements true items) :=
        meets_only rfl rfl (by simp)
      have hc := catchClause c clause
      have hf := block c true finalizer
      rw [Lowering.statement]
      exact meets_only rfl rfl (by simp)
  | .try (.mk items span) (some clause) none _ => by
      have hi := statements c true items
      have hb : Accounts c (Site.within ⟨c, .value, .block (.mk items span)⟩) (Lowering.statements true items) :=
        meets_only rfl rfl (by simp)
      have hc := catchClause c clause
      rw [Lowering.statement]
      exact meets_only rfl rfl (by simp)
  | .try (.mk items span) none (some finalizer) _ => by
      have hi := statements c true items
      have hb : Accounts c (Site.within ⟨c, .value, .block (.mk items span)⟩) (Lowering.statements true items) :=
        meets_only rfl rfl (by simp)
      have hf := block c true finalizer
      rw [Lowering.statement]
      exact meets_only rfl rfl (by simp)
  | .try (.mk items span) none none _ => by
      have hi := statements c true items
      have hb : Accounts c (Site.within ⟨c, .value, .block (.mk items span)⟩) (Lowering.statements true items) :=
        meets_only rfl rfl (by simp)
      rw [Lowering.statement]
      exact meets_only rfl rfl (by simp)
  | .function f => by
      have hf := function c f
      rw [Lowering.statement]
      exact meets_only rfl rfl (by simp)
  | .classDeclaration d => by
      have hc := classDefinition c d
      rw [Lowering.statement]
      exact meets_only rfl rfl (by simp)
  | .exportDeclaration s span => by
      have hm := markModule (c := c) (q := ⟨c, .value, .statement (.exportDeclaration s span)⟩) rfl rfl span.start
      have hs := statement c s
      rw [Lowering.statement, Site.within_eq]
      exact of_eq (by simp)
  | .exportDefault value span => by
      have hm := markModule (c := c) (q := ⟨c, .value, .statement (.exportDefault value span)⟩) rfl rfl span.start
      have hs := statement c value
      rw [Lowering.statement.eq_def, Site.within_eq]
      dsimp only
      cases value with
      | expression e s =>
          have he := expression c .nil .value (.inl rfl) e
          have hs : Accounts c (Site.within ⟨c, .value, .statement (.expression e s)⟩)
              (Lowering.expression [] .value e) := meets_only rfl rfl (by simp)
          exact of_eq (by simp)
      | _ => exact of_eq (by simp)

end

end Accounts

end Lowering

end EcmaScript
