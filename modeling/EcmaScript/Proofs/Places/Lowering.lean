import EcmaScript.Proofs.Places.Rules

/-!
# Lowering at places of the text

The recursion over the concrete tree stays in the text: from a construct of the text it makes nodes of the
text. The proofs go through the tree as the recursion does. Each takes the parts of its construct out of
the table of parts, lowers those that are constructs, and leaves the rest to the rules.

## Contents

* `Sound.expression`, `Sound.statement` and the theorems between them, by recursion over the tree.
* `Sound.script`: the root of the tree.
-/

namespace EcmaScript

namespace Lowering

set_option synthInstance.maxSize 20000

namespace Sound

variable {text : List Char}

/-! ## The recursion -/

-- In every case `h` says that the parts of the construct are in the text, and `simpa` reads off the table
-- of parts which these are. The hypotheses that are named after constructs are those of the induction;
-- binary operators are the only ones that go down with more operators than they were given.

mutual

theorem expression {pending : List PendingOperator} (hp : Pending text pending) (role : Role) :
    (e : Expression) → InText text e.parts → Sound text (Lowering.expression pending role e)
  | .binary operator left right span, h => by
      have ⟨hs, hl, hr⟩ : InText text span ∧ InText text left ∧ InText text right := by simpa using h
      have hright := expression pending_nil .value right hr.inner
      rw [Lowering.expression]
      exact bind inferInstance fun _ => expression (pending_cons hright hs hp) .value left hl.inner
  | .identifier name, h | .privateName name, h => by
      have : InText text name := by simpa using h
      have happly := @applyPending text pending hp
      rw [Lowering.expression]
      infer_instance
  | .string literal, h => by
      have : InText text literal := by simpa using h
      have happly := @applyPending text pending hp
      rw [Lowering.expression]
      infer_instance
  | .this span, h | .super span, h | .null span, h | .boolean _ span, h | .number _ span, h
  | .bigint _ span, h | .regexp _ _ span, h | .newTarget span, h | .importMeta span, h => by
      have : InText text span := by simpa using h
      have happly := @applyPending text pending hp
      rw [Lowering.expression]
      infer_instance
  | .template texts substitutions span, h => by
      have ⟨hs, ht, he⟩ : InText text span ∧ InText text texts ∧ InText text substitutions := by
        simpa using h
      have happly := @applyPending text pending hp
      have ht := template false texts ht substitutions he
      rw [Lowering.expression]
      infer_instance
  | .taggedTemplate tag texts substitutions templateSpan span, h => by
      have ⟨hs, hi, hg, ht, he⟩ : InText text span ∧ InText text templateSpan ∧ InText text tag ∧
        InText text texts ∧ InText text substitutions := by simpa using h
      have happly := @applyPending text pending hp
      have htag := expression pending_nil .value tag hg.inner
      have ht := template true texts ht substitutions he
      rw [Lowering.expression]
      infer_instance
  | .array elements trailingComma span, h => by
      have ⟨hs, he⟩ : InText text span ∧ InText text elements := by simpa using h
      have happly := @applyPending text pending hp
      have hl := arrayLiteral elements he
      have hpat (kind : TargetKind) := arrayPattern kind trailingComma elements he
      rw [Lowering.expression]
      refine bind inferInstance fun _ => ?_
      dsimp only
      split <;> infer_instance
  | .object properties trailingComma span, h => by
      have ⟨hs, hi⟩ : InText text span ∧ InText text properties := by simpa using h
      have happly := @applyPending text pending hp
      have hl := objectLiteral properties hi
      have hpat (kind : TargetKind) := objectPattern kind properties hi
      rw [Lowering.expression]
      refine bind inferInstance fun _ => ?_
      dsimp only
      split <;> infer_instance
  | .function f, h => by
      have hf : InText text f := by simpa using h
      have happly := @applyPending text pending hp
      have := function f hf.inner
      rw [Lowering.expression]
      infer_instance
  | .classExpression c, h => by
      have hc : InText text c := by simpa using h
      have happly := @applyPending text pending hp
      have := classDefinition c hc.inner
      rw [Lowering.expression]
      infer_instance
  | .unary _ argument span, h | .update _ _ argument span, h | .await argument span, h
  | .dynamicImport argument span, h | .paren argument span, h => by
      have ⟨hs, ha⟩ : InText text span ∧ InText text argument := by simpa using h
      have happly := @applyPending text pending hp
      have he := expression pending_nil .value argument ha.inner
      rw [Lowering.expression]
      infer_instance
  | .assignment operator left right span, h => by
      have ⟨hs, hl, hr⟩ : InText text span ∧ InText text left ∧ InText text right := by simpa using h
      have happly := @applyPending text pending hp
      have hleft (role : Role) := expression pending_nil role left hl.inner
      have hright := expression pending_nil .value right hr.inner
      rw [Lowering.expression.eq_def]
      refine bind inferInstance fun _ => ?_
      dsimp only
      split <;> infer_instance
  | .conditional test consequent alternate span, h => by
      have ⟨hs, ht, hc, ha⟩ : InText text span ∧ InText text test ∧ InText text consequent ∧
        InText text alternate := by simpa using h
      have happly := @applyPending text pending hp
      have ht := expression pending_nil .value test ht.inner
      have hc := expression pending_nil .value consequent hc.inner
      have ha := expression pending_nil .value alternate ha.inner
      rw [Lowering.expression]
      infer_instance
  | .sequence [] span, h => by
      -- the node that stands for nothing would have to stand in the text
      have ⟨_, hs⟩ : InText text span ∧ InText text (default : Span) := by simpa using h
      have hnode : InText text (Lowering.commaNode []) := inferInstanceAs (InText text (Node.mk ..))
      have happly := applyPending hp (Lowering.commaNode [])
      rw [Lowering.expression, Lowering.expressions]
      exact bind inferInstance fun _ => happly
  | .sequence (e :: es) span, h => by
      have ⟨_, he, hes⟩ : InText text span ∧ InText text e ∧ InText text es := by simpa using h
      have happly := @applyPending text pending hp
      have hfirst := expression pending_nil .value e he.inner
      have hothers := expressions es hes
      have hcomma (n : TextValue text Node) (ns : TextValue text (List Node)) :
        InText text (Lowering.commaNode (n.val :: ns.val)) := commaNode n.val ns.val ns.inText
      rw [Lowering.expression, Lowering.expressions]
      simp only [bind_assoc, pure_bind]
      infer_instance
  | .member receiver property optional span, h => by
      have ⟨hs, hr, hn⟩ : InText text span ∧ InText text receiver ∧ InText text property := by
        simpa using h
      have happly := @applyPending text pending hp
      have hr := expression pending_nil .value receiver hr.inner
      rw [Lowering.expression]
      infer_instance
  | .computedMember receiver key optional span, h => by
      have ⟨hs, hr, hk⟩ : InText text span ∧ InText text receiver ∧ InText text key := by simpa using h
      have happly := @applyPending text pending hp
      have hr := expression pending_nil .value receiver hr.inner
      have hk := expression pending_nil .value key hk.inner
      rw [Lowering.expression]
      infer_instance
  | .call callee items trailingComma optional span, h => by
      have ⟨hs, hc, hi⟩ : InText text span ∧ InText text callee ∧ InText text items := by simpa using h
      have happly := @applyPending text pending hp
      have hc := expression pending_nil .callee callee hc.inner
      have hi := expressions items hi
      rw [Lowering.expression]
      infer_instance
  | .construction callee items trailingComma span, h => by
      have ⟨hs, hc, hi⟩ : InText text span ∧ InText text callee ∧ InText text items := by simpa using h
      have happly := @applyPending text pending hp
      have hc := expression pending_nil .value callee hc.inner
      have hi := expressions items hi
      rw [Lowering.expression]
      infer_instance
  | .spread argument span, h => by
      have ⟨hs, ha⟩ : InText text span ∧ InText text argument := by simpa using h
      have happly := @applyPending text pending hp
      have he (role : Role) := expression pending_nil role argument ha.inner
      rw [Lowering.expression.eq_def]
      refine bind inferInstance fun _ => ?_
      dsimp only
      split <;> infer_instance
  | .yield argument delegates span, h => by
      have ⟨hs, ha⟩ : InText text span ∧ InText text argument := by simpa using h
      have happly := @applyPending text pending hp
      have ho := optional argument ha
      rw [Lowering.expression]
      infer_instance

theorem expressions : (es : List Expression) → InText text es → Sound text (Lowering.expressions es)
  | [], _ => by
      rw [Lowering.expressions]
      infer_instance
  | e :: rest, h => by
      have ⟨he, hr⟩ := InText.cons_iff.mp h
      have he := expression pending_nil .value e he.inner
      have hr := expressions rest hr
      rw [Lowering.expressions]
      infer_instance

theorem optional : (e : Option Expression) → InText text e → Sound text (Lowering.optional e)
  | none, _ => by
      rw [Lowering.optional]
      infer_instance
  | some e, h => by
      have he := expression pending_nil .value e (InText.some_iff.mp h).inner
      rw [Lowering.optional]
      infer_instance

theorem template (tagged : Bool) (texts : List TemplateText) (ht : InText text texts) :
    (es : List Expression) → InText text es → Sound text (Lowering.template tagged texts es)
  | [], _ => by
      rw [Lowering.template]
      exact mapM (fun _ => inferInstance) ht
  | e :: rest, h => by
      have ⟨hin, hr⟩ := InText.cons_iff.mp h
      have he := expression pending_nil .value e hin.inner
      have hr (texts : List TemplateText) (ht : InText text texts) := template tagged texts ht rest hr
      rw [Lowering.template.eq_def]
      dsimp only
      cases texts with
      | nil => infer_instance
      | cons first texts =>
          have ⟨hf, ht⟩ := InText.cons_iff.mp ht
          have := hr texts ht
          infer_instance

theorem arrayLiteral : (items : List ArrayElement) → InText text items →
    Sound text (Lowering.arrayLiteral items)
  | [], _ => by
      rw [Lowering.arrayLiteral]
      infer_instance
  | .hole span :: rest, h => by
      have ⟨hi, hr⟩ := InText.cons_iff.mp h
      have : InText text span := InText.part_iff.mp (hi.first rfl)
      have hr := arrayLiteral rest hr
      rw [Lowering.arrayLiteral]
      infer_instance
  | .item e :: rest, h => by
      have ⟨hi, hr⟩ := InText.cons_iff.mp h
      have he : InText text e := InText.part_iff.mp (hi.first rfl)
      have he := expression pending_nil .value e he.inner
      have hr := arrayLiteral rest hr
      rw [Lowering.arrayLiteral]
      infer_instance
  | .spread argument span :: rest, h => by
      have ⟨hi, hr⟩ := InText.cons_iff.mp h
      have hparts : InText text (ArrayElement.spread argument span).parts := hi.inner
      have ⟨hs, ha⟩ : InText text span ∧ InText text argument := by simpa using hparts
      have he := expression pending_nil .value argument ha.inner
      have hr := arrayLiteral rest hr
      rw [Lowering.arrayLiteral]
      infer_instance

theorem arrayPattern (kind : TargetKind) (trailingComma : Bool) : (items : List ArrayElement) →
    InText text items → Sound text (Lowering.arrayPattern kind trailingComma items)
  | [], _ => by
      rw [Lowering.arrayPattern]
      infer_instance
  | .hole span :: rest, h => by
      have ⟨hi, hr⟩ := InText.cons_iff.mp h
      have : InText text span := InText.part_iff.mp (hi.first rfl)
      have hr := arrayPattern kind trailingComma rest hr
      rw [Lowering.arrayPattern]
      infer_instance
  | .item e :: rest, h => by
      have ⟨hi, hr⟩ := InText.cons_iff.mp h
      have he : InText text e := InText.part_iff.mp (hi.first rfl)
      have he := expression pending_nil (.entry kind) e he.inner
      have hr := arrayPattern kind trailingComma rest hr
      rw [Lowering.arrayPattern]
      infer_instance
  | .spread argument span :: rest, h => by
      have ⟨hi, hr⟩ := InText.cons_iff.mp h
      have hparts : InText text (ArrayElement.spread argument span).parts := hi.inner
      have ⟨hs, ha⟩ : InText text span ∧ InText text argument := by simpa using hparts
      have he := expression pending_nil (.rest kind) argument ha.inner
      have hr := arrayPattern kind trailingComma rest hr
      rw [Lowering.arrayPattern]
      infer_instance

theorem objectLiteral : (items : List Property) → InText text items →
    Sound text (Lowering.objectLiteral items)
  | [], _ => by
      rw [Lowering.objectLiteral]
      infer_instance
  | .keyValue key value span :: rest, h => by
      have ⟨hi, hr⟩ := InText.cons_iff.mp h
      have hparts : InText text (Property.keyValue key value span).parts := hi.inner
      have ⟨hs, hk, hv⟩ : InText text span ∧ InText text key ∧ InText text value := by simpa using hparts
      have hv := expression pending_nil .value value hv.inner
      have hr := objectLiteral rest hr
      cases key with
      | computed e keySpan =>
          have hparts : InText text (PropertyKey.computed e keySpan).parts := hk.inner
          have ⟨_, he⟩ : InText text keySpan ∧ InText text e := by simpa using hparts
          have he := expression pending_nil .value e he.inner
          rw [Lowering.objectLiteral]
          infer_instance
      | _ => rw [Lowering.objectLiteral] <;> first | infer_instance | nofun
  | .shorthand name default span :: rest, h => by
      have ⟨hi, hr⟩ := InText.cons_iff.mp h
      have hparts : InText text (Property.shorthand name default span).parts := hi.inner
      have ⟨hs, hn, hd⟩ : InText text span ∧ InText text name ∧ InText text default := by
        simpa using hparts
      have ho := optional default hd
      have hr := objectLiteral rest hr
      rw [Lowering.objectLiteral]
      cases default with
      | some value =>
          have := InText.some_iff.mp hd
          infer_instance
      | none => infer_instance
  | .method key f span :: rest, h => by
      have ⟨hi, hr⟩ := InText.cons_iff.mp h
      have hparts : InText text (Property.method key f span).parts := hi.inner
      have ⟨hs, hk, hf⟩ : InText text span ∧ InText text key ∧ InText text f := by simpa using hparts
      have hf := function f hf.inner
      have hm : Sound text (Lowering.objectMethodNode key f.kind span (Lowering.keyExpression key)
        (Lowering.function f)) := objectMethodNode span (keyExpression key hk.inner) (kind_function f)
      have hr := objectLiteral rest hr
      rw [Lowering.objectLiteral]
      infer_instance
  | .spread argument span :: rest, h => by
      have ⟨hi, hr⟩ := InText.cons_iff.mp h
      have hparts : InText text (Property.spread argument span).parts := hi.inner
      have ⟨hs, ha⟩ : InText text span ∧ InText text argument := by simpa using hparts
      have he := expression pending_nil .value argument ha.inner
      have hr := objectLiteral rest hr
      rw [Lowering.objectLiteral]
      infer_instance

theorem objectPattern (kind : TargetKind) : (items : List Property) → InText text items →
    Sound text (Lowering.objectPattern kind items)
  | [], _ => by
      rw [Lowering.objectPattern]
      infer_instance
  | .keyValue key value span :: rest, h => by
      have ⟨hi, hr⟩ := InText.cons_iff.mp h
      have hparts : InText text (Property.keyValue key value span).parts := hi.inner
      have ⟨hs, hk, hv⟩ : InText text span ∧ InText text key ∧ InText text value := by simpa using hparts
      have hv := expression pending_nil (.entry kind) value hv.inner
      have hr := objectPattern kind rest hr
      cases key with
      | computed e keySpan =>
          have hparts : InText text (PropertyKey.computed e keySpan).parts := hk.inner
          have ⟨_, he⟩ : InText text keySpan ∧ InText text e := by simpa using hparts
          have he := expression pending_nil .value e he.inner
          rw [Lowering.objectPattern]
          infer_instance
      | _ => rw [Lowering.objectPattern] <;> first | infer_instance | nofun
  | .shorthand name default span :: rest, h => by
      have ⟨hi, hr⟩ := InText.cons_iff.mp h
      have hparts : InText text (Property.shorthand name default span).parts := hi.inner
      have ⟨hs, hn, hd⟩ : InText text span ∧ InText text name ∧ InText text default := by
        simpa using hparts
      have ho := optional default hd
      have hr := objectPattern kind rest hr
      rw [Lowering.objectPattern]
      infer_instance
  | .method key f span :: rest, h => by
      have ⟨hi, hr⟩ := InText.cons_iff.mp h
      have : InText text span := InText.part_iff.mp (hi.first rfl)
      have hr := objectPattern kind rest hr
      rw [Lowering.objectPattern]
      infer_instance
  | .spread argument span :: rest, h => by
      have ⟨hi, hr⟩ := InText.cons_iff.mp h
      have hparts : InText text (Property.spread argument span).parts := hi.inner
      have ⟨hs, ha⟩ : InText text span ∧ InText text argument := by simpa using hparts
      have he := expression pending_nil (.rest kind) argument ha.inner
      have hr := objectPattern kind rest hr
      rw [Lowering.objectPattern]
      infer_instance

theorem function : (f : Function) → InText text f.parts → Sound text (Lowering.function f)
  | .mk name items trailingComma parametersSpan body kind isAsync isGenerator span, h => by
      have ⟨hs, hps, hb, hn, hi⟩ : InText text span ∧ InText text parametersSpan ∧ InText text body ∧
        InText text name ∧ InText text items := by simpa using h
      have hitems (objected : Bool) := parameters trailingComma objected items hi
      have hbody := functionBody body hb.inner
      rw [Lowering.function]
      infer_instance

theorem parameters (trailingComma objected : Bool) : (items : List Expression) → InText text items →
    Sound text (Lowering.parameters trailingComma objected items)
  | [], _ => by
      rw [Lowering.parameters]
      infer_instance
  | e :: rest, h => by
      have ⟨he, hr⟩ := InText.cons_iff.mp h
      have he (role : Role) := expression pending_nil role e he.inner
      have hr := parameters trailingComma objected rest hr
      rw [Lowering.parameters]
      infer_instance

theorem functionBody : (b : FunctionBody) → InText text b.parts → Sound text (Lowering.functionBody b)
  | .block b, h => by
      have hb : InText text b := by simpa using h
      rw [Lowering.functionBody]
      exact block false b hb
  | .expression e, h => by
      have he : InText text e := by simpa using h
      rw [Lowering.functionBody]
      exact expression pending_nil .value e he.inner

theorem block (nested : Bool) : (b : Block) → InText text b → Sound text (Lowering.block nested b)
  | .mk items span, h => by
      have ⟨hs, hi, ho⟩ := InText.block_iff.mp h
      have hi := statements nested items hi
      rw [Lowering.block]
      refine bind_statements hi fun nodes hn => ?_
      have : InText text (Node.branch .block span nodes.val) := .list hs nodes.inText (hn span ho)
      infer_instance

theorem statements (nested : Bool) : (items : List Statement) → InText text items →
    Sound text (Lowering.statements nested items)
  | [], _ => by
      rw [Lowering.statements]
      infer_instance
  | s :: rest, h => by
      have ⟨hin, hr⟩ := InText.cons_iff.mp h
      have hs := statement s hin.inner
      have hr := statements nested rest hr
      rw [Lowering.statements]
      infer_instance

theorem classDefinition : (c : ClassDefinition) → InText text c.parts →
    Sound text (Lowering.classDefinition c)
  | .mk name heritage members bodySpan span, h => by
      have ⟨hs, hb, hn, he, hm⟩ : InText text span ∧ InText text bodySpan ∧ InText text name ∧
        InText text heritage ∧ InText text members := by simpa using h
      have hmembers := classMembers members hm
      have hconstructors := checkConstructors false _ (constructors hm)
      rw [Lowering.classDefinition]
      cases heritage with
      | some e =>
          have he := expression pending_nil .value e (InText.some_iff.mp he).inner
          cases name with
          | some name =>
              have := InText.some_iff.mp hn
              infer_instance
          | none => infer_instance
      | none =>
          cases name with
          | some name =>
              have := InText.some_iff.mp hn
              infer_instance
          | none => infer_instance

theorem classMembers : (members : List ClassMember) → InText text members →
    Sound text (Lowering.classMembers members)
  | [], _ => by
      rw [Lowering.classMembers]
      infer_instance
  | member :: rest, h => by
      have ⟨hm, hr⟩ := InText.cons_iff.mp h
      have hm := classMember member hm.inner
      have hr := classMembers rest hr
      rw [Lowering.classMembers]
      infer_instance

theorem classMember : (member : ClassMember) → InText text member.parts →
    Sound text (Lowering.classMember member)
  | .method key f isStatic span, h => by
      have ⟨hs, hk, hf⟩ : InText text span ∧ InText text key ∧ InText text f := by simpa using h
      have hf := function f hf.inner
      have hm : Sound text (Lowering.classMethodNode key f.kind span (Lowering.keyExpression key)
        (Lowering.function f)) := classMethodNode span (keyExpression key hk.inner) (kind_function f)
      rw [Lowering.classMember]
      infer_instance
  | .field key value isStatic span, h => by
      have ⟨hs, hk, hv⟩ : InText text span ∧ InText text key ∧ InText text value := by simpa using h
      have hf := classFieldNode span (keyExpression key hk.inner)
      rw [Lowering.classMember]
      refine bind_gives (fun n => n.kind.isList = false) hf (fun s => ?_) fun node hn => ?_
      · obtain hk | hk := kind_classFieldNode key span (Lowering.keyExpression key) s <;> rw [hk]
      have : InText text node.val.kind := ⟨hn⟩
      cases value with
      | some e =>
          have he := expression pending_nil .value e (InText.some_iff.mp hv).inner
          infer_instance
      | none => infer_instance
  | .staticBlock (.mk items span), h => by
      have ⟨hs, hi, ho⟩ := InText.block_iff.mp (InText.part_iff.mp (InText.cons_iff.mp h).1)
      have hi := statements false items hi
      rw [Lowering.classMember]
      refine bind inferInstance fun _ => ?_
      refine bind_gives (fun ns => ns.map (·.span) = items.map Statement.span) inferInstance
        (fun _ => spans_statements false items _) fun nodes hn => ?_
      have : InText text (Node.mk .block .none nodes.val span { isStatic := true } none none none) :=
        .list hs nodes.inText (hn ▸ ho)
      infer_instance

theorem keyExpression : (key : PropertyKey) → InText text key.parts →
    LowersKey text key (Lowering.keyExpression key)
  | .computed e span, h => by
      have ⟨_, he⟩ : InText text span ∧ InText text e := by simpa using h
      have he := expression pending_nil .value e he.inner
      intro _ _ _
      rw [Lowering.keyExpression]
      exact he
  | .name _, _ | .hidden _, _ | .string _, _ | .number _ _, _ | .bigint _ _, _ => nofun

theorem declaration (loop : Option String) : (d : Declaration) → InText text d.parts →
    Sound text (Lowering.declaration loop d)
  | .mk kind declarators span, h => by
      have ⟨hs, hd⟩ : InText text span ∧ InText text declarators := by simpa using h
      have hd := declaratorList kind loop declarators hd
      rw [Lowering.declaration]
      infer_instance

theorem declaratorList (kind : VariableKind) (loop : Option String) : (items : List Declarator) →
    InText text items → Sound text (Lowering.declaratorList kind loop items)
  | [], _ => by
      rw [Lowering.declaratorList]
      infer_instance
  | .mk target value span :: rest, h => by
      have ⟨hi, hr⟩ := InText.cons_iff.mp h
      have hparts : InText text (Declarator.mk target value span).parts := hi.inner
      have ⟨hs, ht, hv⟩ : InText text span ∧ InText text target ∧ InText text value := by
        simpa using hparts
      have ht := expression pending_nil (.target .binding) target ht.inner
      have hv := optional value hv
      have hr := declaratorList kind loop rest hr
      rw [Lowering.declaratorList]
      refine bind inferInstance fun _ => ?_
      refine bind_gives (fun n => isIdentifier target = true → n.kind = .identifier) ht
        (fun s h => kind_expression h _ s) fun node hn => bind hv fun value => ?_
      have hk (h : isIdentifier target = true) : InText text node.val.kind :=
        hn h ▸ inferInstanceAs (InText text NodeKind.identifier)
      have := declaratorNode span node.val hk value.val
      infer_instance

theorem loopTarget (loop : String) : (head : LoopHead) → InText text head.parts →
    Sound text (Lowering.loopTarget loop head)
  | .declaration d, h => by
      have hd : InText text d := by simpa using h
      have := declaration (some loop) d hd.inner
      rw [Lowering.loopTarget]
      infer_instance
  | .expression e, h => by
      have he : InText text e := by simpa using h
      rw [Lowering.loopTarget]
      exact expression pending_nil (.target .assignment) e he.inner

theorem loopPart (span : Span) (hs : InText text span) : (e : Option Expression) → InText text e →
    Sound text (Lowering.loopPart span e)
  | some e, h => by
      rw [Lowering.loopPart]
      exact expression pending_nil .value e (InText.some_iff.mp h).inner
  | none, _ => by
      rw [Lowering.loopPart]
      infer_instance

theorem switchCases : (cases : List SwitchCase) → InText text cases →
    Sound text (Lowering.switchCases cases)
  | [], _ => by
      rw [Lowering.switchCases]
      infer_instance
  | .mk test items span :: rest, h => by
      have ⟨hc, hr⟩ := InText.cons_iff.mp h
      have ⟨hs, ht, hi, ho⟩ := InText.switchCase_iff.mp hc
      have hitems := statements true items hi
      have ht := optional test ht
      have hr := switchCases rest hr
      rw [Lowering.switchCases]
      refine bind_gives (·.Arranges (items.map Statement.span)) inferInstance
        (arranges_caseSpan ho span) fun body hb => ?_
      refine bind_statements hitems fun nodes hn => ?_
      have : InText text (Node.branch .block body.val nodes.val) := .list body.inText nodes.inText (hn _ hb)
      infer_instance

theorem catchClause : (clause : CatchClause) → InText text clause.parts →
    Sound text (Lowering.catchClause clause)
  | .mk binding gap body span, h => by
      have ⟨hs, hg, hb, he⟩ : InText text span ∧ InText text gap ∧ InText text body ∧
        InText text binding := by simpa using h
      have hb := block true body hb
      cases binding with
      | some e =>
          have he := expression pending_nil (.target .binding) e (InText.some_iff.mp he).inner
          rw [Lowering.catchClause]
          infer_instance
      | none =>
          rw [Lowering.catchClause]
          infer_instance

theorem statement : (s : Statement) → InText text s.parts → Sound text (Lowering.statement s)
  | .empty span, h | .error span, h | .debugger span, h => by
      have : InText text span := by simpa using h
      rw [Lowering.statement]
      infer_instance
  | .continue label span, h | .break label span, h => by
      have ⟨hs, hl⟩ : InText text span ∧ InText text label := by simpa using h
      rw [Lowering.statement]
      infer_instance
  | .import d, h => by
      have : InText text d := by simpa using h
      rw [Lowering.statement]
      infer_instance
  | .exportNamed specifiers specifiersSpan source span, h => by
      have ⟨hs, hss, hi, hl⟩ : InText text span ∧ InText text specifiersSpan ∧
        InText text specifiers ∧ InText text source := by simpa using h
      rw [Lowering.statement]
      infer_instance
  | .exportAll name source span, h => by
      have ⟨hs, hl, hn⟩ : InText text span ∧ InText text source ∧ InText text name := by simpa using h
      rw [Lowering.statement]
      infer_instance
  | .block b, h => by
      have hb : InText text b := by simpa using h
      rw [Lowering.statement]
      exact block true b hb
  | .variable d, h => by
      have hd : InText text d := by simpa using h
      rw [Lowering.statement]
      exact declaration none d hd.inner
  | .expression e span, h | .throw e span, h => by
      have ⟨hs, he⟩ : InText text span ∧ InText text e := by simpa using h
      have he := expression pending_nil .value e he.inner
      rw [Lowering.statement]
      infer_instance
  | .conditional test consequent alternate span, h => by
      have ⟨hs, ht, hin, ha⟩ : InText text span ∧ InText text test ∧ InText text consequent ∧
        InText text alternate := by simpa using h
      have ht := expression pending_nil .value test ht.inner
      have hc := statement consequent hin.inner
      rw [Lowering.statement]
      cases alternate with
      | some other =>
          have := InText.some_iff.mp ha
          have := statement other this.inner
          infer_instance
      | none => infer_instance
  | .doWhile body e span, h | .while e body span, h | .with e body span, h => by
      have ⟨hs, he, hin⟩ : InText text span ∧ InText text e ∧ InText text body := by simpa using h
      have he := expression pending_nil .value e he.inner
      have hb := statement body hin.inner
      rw [Lowering.statement]
      infer_instance
  | .for head test update body span, h => by
      have ⟨hs, hin, hh, ht, hu⟩ : InText text span ∧ InText text body ∧ InText text head ∧
        InText text test ∧ InText text update := by simpa using h
      have ht := loopPart span hs test ht
      have hu := loopPart span hs update hu
      have hb := statement body hin.inner
      match head with
      | some (.declaration d) =>
          have hd : InText text d := InText.part_iff.mp ((InText.some_iff.mp hh).first rfl)
          have := declaration none d hd.inner
          rw [Lowering.statement]
          infer_instance
      | some (.expression e) =>
          have he : InText text e := InText.part_iff.mp ((InText.some_iff.mp hh).first rfl)
          have := expression pending_nil .value e he.inner
          rw [Lowering.statement]
          infer_instance
      | none =>
          rw [Lowering.statement]
          infer_instance
  | .forIn head e body span, h => by
      have ⟨hs, hh, he, hin⟩ : InText text span ∧ InText text head ∧ InText text e ∧
        InText text body := by simpa using h
      have hh (loop : String) := loopTarget loop head hh.inner
      have he := expression pending_nil .value e he.inner
      have hb := statement body hin.inner
      rw [Lowering.statement]
      infer_instance
  | .forOf head e body _ span, h => by
      have ⟨hs, hh, he, hin⟩ : InText text span ∧ InText text head ∧ InText text e ∧
        InText text body := by simpa using h
      have hh (loop : String) := loopTarget loop head hh.inner
      have he := expression pending_nil .value e he.inner
      have hb := statement body hin.inner
      rw [Lowering.statement]
      infer_instance
  | .return argument span, h => by
      have ⟨hs, ha⟩ : InText text span ∧ InText text argument := by simpa using h
      have ho := optional argument ha
      rw [Lowering.statement]
      infer_instance
  | .switch discriminant cases span, h => by
      have ⟨hs, hd, hc⟩ : InText text span ∧ InText text discriminant ∧ InText text cases := by
        simpa using h
      have hd := expression pending_nil .value discriminant hd.inner
      have hc := switchCases cases hc
      rw [Lowering.statement]
      infer_instance
  | .labeled label body span, h => by
      have ⟨hs, hl, hb⟩ : InText text span ∧ InText text label ∧ InText text body := by simpa using h
      have hb := statement body hb.inner
      rw [Lowering.statement]
      infer_instance
  | .try (.mk items blockSpan) handler finalizer span, h => by
      have ⟨hs, hb, hc, hf⟩ : InText text span ∧ InText text (Block.mk items blockSpan) ∧
        InText text handler ∧ InText text finalizer := by simpa using h
      have ⟨hbs, hi, ho⟩ := InText.block_iff.mp hb
      have hi := statements true items hi
      rw [Lowering.statement]
      refine bind_statements hi fun nodes hn => ?_
      have : InText text (Node.branch .block blockSpan nodes.val) := .list hbs nodes.inText (hn _ ho)
      cases handler with
      | some clause =>
          have hc := catchClause clause (InText.some_iff.mp hc).inner
          cases finalizer with
          | some finalizer =>
              have hf := block true finalizer (InText.some_iff.mp hf)
              infer_instance
          | none => infer_instance
      | none =>
          cases finalizer with
          | some finalizer =>
              have hf := block true finalizer (InText.some_iff.mp hf)
              infer_instance
          | none => infer_instance
  | .function f, h => by
      have hf : InText text f := by simpa using h
      rw [Lowering.statement]
      exact function f hf.inner
  | .classDeclaration c, h => by
      have hc : InText text c := by simpa using h
      rw [Lowering.statement]
      exact classDefinition c hc.inner
  | .exportDeclaration s span, h => by
      have ⟨hspan, hs⟩ : InText text span ∧ InText text s := by simpa using h
      have hs := statement s hs.inner
      rw [Lowering.statement]
      infer_instance
  | .exportDefault value span, h => by
      have ⟨hspan, hv⟩ : InText text span ∧ InText text value := by simpa using h
      have hs := statement value hv.inner
      rw [Lowering.statement.eq_def]
      dsimp only
      refine bind inferInstance fun _ => ?_
      cases value with
      | expression e s =>
          have hparts : InText text (Statement.expression e s).parts := hv.inner
          have ⟨_, he⟩ : InText text s ∧ InText text e := by simpa using hparts
          have he := expression pending_nil .value e he.inner
          infer_instance
      | _ => infer_instance

end

/-- The root objects to what was put off, at the places where it was found. -/
theorem script (nodes : List Node) [hn : InText text nodes] (span : Span) [hs : InText text span]
    (ho : span.Arranges (nodes.map (·.span))) : Sound text (Lowering.script nodes span) := by
  have hmodule : InText text (Node.branch .moduleBody span nodes) := .list hs hn ho
  have hscript : InText text (Node.branch .script span nodes) := .list hs hn ho
  constructor
  intro s hs
  have := hs.pendingAwaits
  have hobjects : Sound text (s.pendingAwaits.reverse.forM fun p => error p.1 p.2) :=
    forM (fun _ => inferInstance) inferInstance
  have hrest : Sound text (if s.isModule then
      pure (Node.branch .script span [.branch .moduleBody span nodes])
    else do
      s.pendingAwaits.reverse.forM fun p => error p.1 p.2
      pure (Node.branch .script span nodes)) := inferInstance
  exact hrest.run hs

end Sound

end Lowering

end EcmaScript
