import EcmaScript.Proofs.Shape.Face
import EcmaScript.Proofs.Shape.Update

/-!
# Rules of lowering for the shapes of trees

Lowering makes of constructs that are as they should be trees that are. `Full` says this of a value that is
made of nodes, and `Grows` of a step of lowering: it is closed under the combinators, and has an instance for
each step that makes nodes without recursion. What holds of an increment is known only if its operand is not
refused, so a step may count on it that nothing is refused until its end, and no step takes back what one
before it has said.

## Contents

* `HasGrowth`, `Full`: values that are made of trees.
* `Quietly`: what a step gives unless it refuses something.
* `Grows`: steps that give such values, with the instances for combinators, leaves, keys and members.
-/

namespace EcmaScript

open IsPart (part)

namespace Lowering

-- An instance for a rule is as large as the rule.
set_option synthInstance.maxSize 20000

/-! ## Values -/

/-- Values that are made of nodes. -/
class HasGrowth (α : Type) where
  grown : (Part → Prop) → Prop → α → Prop

/-- The trees that the value is made of are as they should be, and may stand anywhere. -/
class Full (P : Part → Prop) (quiet : Prop) {α : Type} [HasGrowth α] (a : α) : Prop where
  grown : HasGrowth.grown P quiet a

/-- A value of such trees. -/
structure FullValue (P : Part → Prop) (quiet : Prop) (α : Type) [HasGrowth α] where
  val : α
  full : Full P quiet val

attribute [instance] FullValue.full

/-- Types whose values hold no nodes. -/
class Barren (α : Type) : Prop

instance {α : Type} [Barren α] : HasGrowth α := ⟨fun _ _ _ => True⟩

instance : Barren Bool := ⟨⟩
instance : Barren Unit := ⟨⟩
instance : Barren PUnit := ⟨⟩
instance : Barren Scopes := ⟨⟩
instance : Barren State := ⟨⟩
instance : Barren KeyName := ⟨⟩
instance : Barren Span := ⟨⟩

instance : HasGrowth Node := ⟨fun P quiet n => Grown P quiet n ∧ n.Settled⟩

instance : HasGrowth NodeKind := ⟨fun _ _ kind => kind.isPlain = true⟩

instance {α : Type} [HasGrowth α] : HasGrowth (List α) :=
  ⟨fun P quiet xs => ∀ x ∈ xs, HasGrowth.grown P quiet x⟩

instance {α β : Type} [HasGrowth α] [HasGrowth β] : HasGrowth (α × β) :=
  ⟨fun P quiet x => HasGrowth.grown P quiet x.1 ∧ HasGrowth.grown P quiet x.2⟩

namespace Full

variable {P : Part → Prop} {quiet : Prop} {α β : Type}

instance [Barren α] (a : α) : Full P quiet a := ⟨True.intro⟩

section Containers

variable [HasGrowth α] [HasGrowth β] {a : α} {b : β} {xs ys : List α}

theorem cons_iff : Full P quiet (a :: xs) ↔ Full P quiet a ∧ Full P quiet xs :=
  ⟨fun h => ⟨⟨h.grown a List.mem_cons_self⟩, ⟨fun b hb => h.grown b (List.mem_cons_of_mem a hb)⟩⟩,
    fun h => ⟨List.forall_mem_cons.mpr ⟨h.1.grown, h.2.grown⟩⟩⟩

instance : Full P quiet ([] : List α) := ⟨nofun⟩

instance [ha : Full P quiet a] [hx : Full P quiet xs] : Full P quiet (a :: xs) := cons_iff.mpr ⟨ha, hx⟩

instance [hx : Full P quiet xs] [hy : Full P quiet ys] : Full P quiet (xs ++ ys) :=
  ⟨List.forall_mem_append.mpr ⟨hx.grown, hy.grown⟩⟩

instance [ha : Full P quiet a] [hb : Full P quiet b] : Full P quiet (a, b) := ⟨ha.grown, hb.grown⟩

instance {x : α × β} [h : Full P quiet x] : Full P quiet x.1 := ⟨h.grown.1⟩

instance {x : α × β} [h : Full P quiet x] : Full P quiet x.2 := ⟨h.grown.2⟩

omit [HasGrowth β] in
theorem map {f : β → α} {bs : List β} (h : ∀ b, Full P quiet (f b)) : Full P quiet (bs.map f) :=
  ⟨fun _ ha => have ⟨b, _, e⟩ := List.mem_map.mp ha; e ▸ (h b).grown⟩

instance {c : Prop} [Decidable c] {a b : α} [ha : Full P quiet a] [hb : Full P quiet b] :
    Full P quiet (if c then a else b) := by
  split
  · exact ha
  · exact hb

end Containers

/-! ### Nodes -/

/-- A kind of no operator. -/
instance {kind : NodeKind} [h : Held.IsTrue kind.isPlain] : Full P quiet kind := ⟨h.eq⟩

/-- A node that is no operator is as it should be if its children are. -/
theorem node {n : Node} (fresh : n.doc = none ∧ n.leading = none ∧ n.trailing = none)
    (hkind : Full P quiet n.kind) (hstart : n.flags.chainStart = false) (hchildren : Full P quiet n.children) :
    Full P quiet n := by
  have hplain : n.kind.isPlain = true := hkind.grown
  have hsettled : n.Settled := settled_of_kind rfl (NodeKind.startsWithChild_of_isPlain hplain)
  refine ⟨.mk ⟨fresh, fun _ => hsettled, fun c hc => ?_, .inl ⟨hplain, hstart⟩⟩
    fun c hc => (hchildren.grown c hc).1, hsettled⟩
  exact (hchildren.grown c (List.mem_of_mem_drop hc)).2

/-- The children of a node that is no operator may stand anywhere. -/
theorem children {n : Node} (h : Full P quiet n) (hkind : n.kind.isPlain = true) : Full P quiet n.children := by
  have hsettled := h.grown.1.own.settled
  rw [NodeKind.openChildren_of_isPlain hkind] at hsettled
  exact ⟨fun c hc => ⟨h.grown.1.inner c hc, hsettled c hc⟩⟩

/-- A node that is no operator may be put over another region, and given other children. -/
theorem change {n : Node} {children : List Node} {span : Span} (h : Full P quiet n)
    (hkind : n.kind.isPlain = true) (hc : Full P quiet children) : Full P quiet { n with children, span } := by
  refine node h.grown.1.own.fresh ⟨hkind⟩ ?_ hc
  obtain ⟨-, hstart⟩ | ⟨e, -, hdrawn⟩ := h.grown.1.own.own
  · exact hstart
  · exact absurd (hkind.symm.trans hdrawn.isPlain_eq_false) Bool.noConfusion

instance {n : Node} [h : Full P quiet n] {isStatic : Bool} : Full P quiet (n.mark ({ · with isStatic })) :=
  ⟨h.grown.1.mark rfl fun _ => h.grown.2, h.grown.2⟩

section Nodes

variable {kind : NodeKind} {payload : Payload} {children : List Node} {span : Span}
  [hk : Full P quiet kind] [hc : Full P quiet children]

instance {a b c d e f g h i j k l m n o : Bool} :
    Full P quiet (Node.mk kind payload children span ⟨a, b, c, false, d, e, f, g, h, i, j, k, l, m, n, o⟩
      none none none) := node ⟨rfl, rfl, rfl⟩ hk rfl hc

instance : Full P quiet (Node.branch kind span children) := node ⟨rfl, rfl, rfl⟩ hk rfl hc

omit hc in
instance : Full P quiet (Node.leaf kind span) := node ⟨rfl, rfl, rfl⟩ hk rfl ⟨nofun⟩

omit hc in
instance {value : String} : Full P quiet (Node.text kind value span) := node ⟨rfl, rfl, rfl⟩ hk rfl ⟨nofun⟩

omit hk hc in
instance {value : String} : Full P quiet (Node.name value span) := node ⟨rfl, rfl, rfl⟩ ⟨rfl⟩ rfl ⟨nofun⟩

omit hk hc in
instance : Full P quiet (Node.empty span) := node ⟨rfl, rfl, rfl⟩ ⟨rfl⟩ rfl ⟨nofun⟩

end Nodes

end Full

/-! ## Steps -/

/-- What the step gives has the property, unless it has refused something. -/
def Quietly (quiet : Prop) {α : Type} (Q : α → Prop) (p : Lowering α) : Prop :=
  ∀ s, (quiet → ¬(p s).2.journal.RefusesUpdate) → Q (p s).1

/-- What the step gives is made of trees that are as they should be. -/
class Grows (P : Part → Prop) (quiet : Prop) {α : Type} [HasGrowth α] (p : Lowering α) : Prop where
  run : Quietly quiet (HasGrowth.grown P quiet) p

namespace Quietly

variable {quiet : Prop} {α β : Type} {Q R : α → Prop} {T : β → Prop} {p : Lowering α}

theorem of_gives (h : Gives Q p) : Quietly quiet Q p := fun s _ => h s

theorem mono (h : Quietly quiet Q p) (hQ : ∀ a, Q a → R a) : Quietly quiet R p := fun s hs => hQ _ (h s hs)

theorem and (h : Quietly quiet Q p) (h' : Quietly quiet R p) : Quietly quiet (fun a => Q a ∧ R a) p :=
  fun s hs => ⟨h s hs, h' s hs⟩

/-- What follows a step does not take back what that has said. -/
theorem bind {f : α → Lowering β} (hp : Quietly quiet Q p) (hf : ∀ a, Q a → Quietly quiet T (f a))
    (hc : ∀ a, Composed (f a) := by infer_instance) : Quietly quiet T (p >>= f) :=
  fun s hs => hf _ (hp s fun hq hr => hs hq ((hc _).refusesUpdate hr)) _ hs

/-- What the step gives does not matter. -/
theorem skim {f : α → Lowering β} (hf : ∀ a, Quietly quiet T (f a)) : Quietly quiet T (p >>= f) :=
  fun _ hs => hf _ _ hs

theorem pure {a : α} (h : Q a) : Quietly quiet Q (Pure.pure a) := fun _ _ => h

/-- What is noted under a condition does not matter. -/
theorem note {c : Prop} [Decidable c] {q : Lowering Unit} {f : Unit → Lowering β}
    (hf : ∀ u, Quietly quiet T (f u)) : Quietly quiet T (if c then q >>= f else f ()) := by
  split
  · exact skim hf
  · exact hf ()

theorem ite {c : Prop} [Decidable c] {q : Lowering α} (hp : Quietly quiet Q p) (hq : Quietly quiet Q q) :
    Quietly quiet Q (if c then p else q) := by
  split
  · exact hp
  · exact hq

end Quietly

/-! ### The recursion is composed -/

instance (role : Role) (e : Expression) : Composed (expression [] role e) := .expression .pending_nil role e
instance (es : List Expression) : Composed (expressions es) := .expressions es
instance (e : Option Expression) : Composed (optional e) := .optional e
instance (tagged : Bool) (texts : List TemplateText) (es : List Expression) :
    Composed (template tagged texts es) := .template tagged texts es
instance (items : List ArrayElement) : Composed (arrayLiteral items) := .arrayLiteral items
instance (kind : TargetKind) (trailingComma : Bool) (items : List ArrayElement) :
    Composed (arrayPattern kind trailingComma items) := .arrayPattern kind trailingComma items
instance (items : List Property) : Composed (objectLiteral items) := .objectLiteral items
instance (kind : TargetKind) (items : List Property) : Composed (objectPattern kind items) :=
  .objectPattern kind items
instance (f : Function) : Composed (function f) := .function f
instance (trailingComma objected : Bool) (items : List Expression) :
    Composed (parameters trailingComma objected items) := .parameters trailingComma objected items
instance (body : FunctionBody) : Composed (functionBody body) := .functionBody body
instance (nested : Bool) (b : Block) : Composed (block nested b) := .block nested b
instance (nested : Bool) (items : List Statement) : Composed (statements nested items) :=
  .statements nested items
instance (c : ClassDefinition) : Composed (classDefinition c) := .classDefinition c
instance (members : List ClassMember) : Composed (classMembers members) := .classMembers members
instance (member : ClassMember) : Composed (classMember member) := .classMember member
instance (key : PropertyKey) : Composed (keyExpression key) := .keyExpression key
instance (loop : Option String) (d : Declaration) : Composed (declaration loop d) := .declaration loop d
instance (kind : VariableKind) (loop : Option String) (items : List Declarator) :
    Composed (declaratorList kind loop items) := .declaratorList kind loop items
instance (loop : String) (head : LoopHead) : Composed (loopTarget loop head) := .loopTarget loop head
instance (span : Span) (e : Option Expression) : Composed (loopPart span e) := .loopPart span e
instance (cases : List SwitchCase) : Composed (switchCases cases) := .switchCases cases
instance (clause : CatchClause) : Composed (catchClause clause) := .catchClause clause
instance (s : Statement) : Composed (statement s) := .statement s
instance (node : Node) : Composed (applyPending [] node) := .applyPending .pending_nil node

namespace Grows

variable {P : Part → Prop} {quiet : Prop} {α β : Type} [HasGrowth α] [HasGrowth β] {p : Lowering α}

/-! ## Combinators -/

/-- What is known of the result of a step whatever the state, the steps behind it may count on. -/
theorem bind_gives {Q : α → Prop} {f : α → Lowering β} (hp : Grows P quiet p) (hQ : Gives Q p)
    (hf : ∀ a : FullValue P quiet α, Q a.val → Grows P quiet (f a.val))
    (hc : ∀ a, Composed (f a) := by infer_instance) : Grows P quiet (p >>= f) :=
  ⟨(hp.run.and (.of_gives hQ)).bind (fun a ha => (hf ⟨a, ⟨ha.1⟩⟩ ha.2).run) hc⟩

theorem bind {f : α → Lowering β} (hp : Grows P quiet p)
    (hf : ∀ a : FullValue P quiet α, Grows P quiet (f a.val))
    (hc : ∀ a, Composed (f a) := by infer_instance) : Grows P quiet (p >>= f) :=
  bind_gives (Q := fun _ => True) hp (fun _ => True.intro) (fun a _ => hf a) hc

instance instBind {f : α → Lowering β} [hp : Grows P quiet p]
    [hf : ∀ a : FullValue P quiet α, Grows P quiet (f a.val)] [hc : ∀ a, Composed (f a)] :
    Grows P quiet (p >>= f) := bind hp hf hc

instance instPure {a : α} [ha : Full P quiet a] : Grows P quiet (pure a : Lowering α) := ⟨.pure ha.grown⟩

instance instBarren {α : Type} [Barren α] (p : Lowering α) : Grows P quiet p := ⟨fun _ _ => True.intro⟩

omit [HasGrowth β] in
/-- What a step gives does not matter. -/
theorem skim {f : β → Lowering α} {q : Lowering β} (hf : ∀ b, Grows P quiet (f b)) :
    Grows P quiet (q >>= f) := ⟨.skim fun b => (hf b).run⟩

instance instMap {f : α → β} [Grows P quiet p] [∀ a : FullValue P quiet α, Full P quiet (f a.val)] :
    Grows P quiet (f <$> p) := inferInstanceAs (Grows P quiet (p >>= fun a => pure (f a)))

instance instIte {c : Prop} [Decidable c] {q : Lowering α} [hp : Grows P quiet p] [hq : Grows P quiet q] :
    Grows P quiet (if c then p else q) := ⟨.ite hp.run hq.run⟩

omit [HasGrowth β] in
theorem mapM {f : β → Lowering α} (bs : List β) (hf : ∀ b, Grows P quiet (f b)) [hc : ∀ b, Composed (f b)] :
    Grows P quiet (bs.mapM f) := by
  induction bs with
  | nil =>
      rw [List.mapM_nil]
      infer_instance
  | cons b bs ih =>
      have := hf b
      rw [List.mapM_cons]
      infer_instance

instance (enter exit : Scopes → Scopes) [h : Grows P quiet p] : Grows P quiet (between enter exit p) :=
  ⟨fun _ hs => h.run _ hs⟩

instance (boundary : Boundary) (isGenerator isAsync : Bool) [Grows P quiet p] :
    Grows P quiet (insideFunction boundary isGenerator isAsync p) := by
  unfold insideFunction
  infer_instance

instance (names : List String) [Grows P quiet p] : Grows P quiet (insideClass names p) := by
  unfold insideClass
  infer_instance

instance [Grows P quiet p] : Grows P quiet (insideLoop p) := by
  unfold insideLoop
  infer_instance

instance [Grows P quiet p] : Grows P quiet (insideSwitch p) := by
  unfold insideSwitch
  infer_instance

instance (label : Identifier) (isLoop : Bool) [Grows P quiet p] : Grows P quiet (insideLabel label isLoop p) := by
  unfold insideLabel
  refine skim fun s => ?_
  split
  · exact skim fun _ => inferInstance
  · infer_instance

/-! ## Leaves -/

instance (node : Node) [Full P quiet node] :
    Grows P quiet (applyPending [] node) := by
  unfold applyPending
  infer_instance

instance (name : Identifier) : Grows P quiet (identifier name) := by
  unfold identifier
  infer_instance

instance (value : Double) (span : Span) : Full P quiet (numberNode value span) := by
  unfold numberNode
  infer_instance

instance (value : Nat) (span : Span) : Grows P quiet (bigintNode value span) := by
  unfold bigintNode
  infer_instance

instance (literal : StringLiteral) : Full P quiet (stringNode literal) := by
  unfold stringNode
  infer_instance

instance (pattern flags : String) (span : Span) : Grows P quiet (regexpNode pattern flags span) := by
  unfold regexpNode
  infer_instance

instance (tagged : Bool) (t : TemplateText) : Grows P quiet (templateText tagged t) := by
  unfold templateText
  infer_instance

instance (key : KeyName) (kind : NodeKind) [Full P quiet kind] (value : Node) [Full P quiet value] :
    Full P quiet (key.node kind value) := by
  unfold KeyName.node
  infer_instance

instance (name : Identifier) (value : Node) [Full P quiet value] : Full P quiet (shorthandNode name value) := by
  unfold shorthandNode
  infer_instance

instance (name : Identifier) : Full P quiet (privateNode name) := by
  unfold privateNode
  infer_instance

instance (name : Identifier) : Grows P quiet (privateOperand name) := by
  unfold privateOperand
  infer_instance

instance (name : Identifier) : Grows P quiet (misplacedPrivateName name) := by
  unfold misplacedPrivateName
  infer_instance

instance (operator : UnaryOperator) : Full P quiet (NodeKind.ofUnary operator) :=
  ⟨NodeKind.isPlain_ofUnary operator⟩

/-! ## Modules -/

instance (name : ModuleName) : Full P quiet (moduleNameNode name) := by
  unfold moduleNameNode
  cases name <;> infer_instance

instance (specifier : ImportSpecifier) : Grows P quiet (importSpecNode specifier) := by
  unfold importSpecNode
  dsimp only
  cases specifier.local <;> infer_instance

instance (d : ImportDeclaration) : Grows P quiet (importNode d) := by
  have hspecs (specifiers : List ImportSpecifier) : Grows P quiet (specifiers.mapM importSpecNode) :=
    mapM specifiers inferInstance
  unfold importNode
  dsimp only
  cases d.defaultName <;> cases d.bindings <;> infer_instance

instance (specifier : ExportSpecifier) : Full P quiet (exportSpecNode specifier) := by
  unfold exportSpecNode
  infer_instance

instance (specifiers : List ExportSpecifier) (specifiersSpan : Span) (source : Option StringLiteral)
    (span : Span) : Full P quiet (exportNamedNode specifiers specifiersSpan source span) := by
  have hspecs : Full P quiet (specifiers.map exportSpecNode) := .map inferInstance
  have hsource : Full P quiet (source.toList.map stringNode) := .map inferInstance
  unfold exportNamedNode
  infer_instance

instance (name : Option ModuleName) (source : StringLiteral) (span : Span) :
    Full P quiet (exportAllNode name source span) := by
  unfold exportAllNode
  cases name <;> infer_instance

/-! ## Functions and classes -/

instance (name : Option Identifier) (span : Span) : Grows P quiet (functionName name span) := by
  unfold functionName
  cases name <;> infer_instance

instance (items : List Node) [Full P quiet items] (trailingComma : Bool) (span : Span) :
    Grows P quiet (parametersNode items trailingComma span) := by
  unfold parametersNode
  infer_instance

instance (kind : FunctionKind) : Full P quiet (methodKind kind) := ⟨by cases kind <;> rfl⟩

instance (kind : FunctionKind) (key function : Node) (span : Span) [Full P quiet key] [Full P quiet function] :
    Full P quiet (computedMethodNode kind key function span) := by
  unfold computedMethodNode
  infer_instance

section Members

variable (key : PropertyKey) (kind : FunctionKind) (span : Span) {loweredKey loweredFunction : Lowering Node}
  [Grows P quiet loweredKey] [Composed loweredKey] [Composed loweredFunction] [hl : Grows P quiet loweredFunction]
  (hf : Gives (·.kind = .function) loweredFunction)

omit [Composed loweredKey] [Composed loweredFunction] hl in
instance : Grows P quiet (classKeyNode key loweredKey) := by
  unfold classKeyNode
  split <;> infer_instance

include hf

omit [Composed loweredFunction] in
/-- The node of a function may be put over another region. -/
theorem bind_function {m : Node → Node} (hm : ∀ n, Full P quiet n → Full P quiet (m n)) :
    Grows P quiet (loweredFunction >>= fun n => pure (m { n with span })) := by
  refine bind_gives hl hf fun n hn => ?_
  have hplain : n.val.kind.isPlain = true := hn ▸ rfl
  have hmade := hm { n.val with span } (n.full.change hplain (n.full.children hplain))
  infer_instance

theorem objectMethodNode : Grows P quiet (objectMethodNode key kind span loweredKey loweredFunction) := by
  unfold Lowering.objectMethodNode
  refine skim fun _ => ?_
  split
  · infer_instance
  · exact skim fun _ => bind_function span hf fun _ _ => inferInstance

theorem classMethodNode : Grows P quiet (classMethodNode key kind span loweredKey loweredFunction) := by
  unfold Lowering.classMethodNode
  refine skim fun _ => ?_
  split
  · exact skim fun _ => bind_function span hf fun _ _ => inferInstance
  · exact skim fun _ => skim fun _ => bind_function span hf fun _ _ => inferInstance
  · exact bind inferInstance fun key =>
      bind_function (m := (computedMethodNode kind key.val · span)) span hf fun _ _ => inferInstance

end Members

instance (key : PropertyKey) (span : Span) {loweredKey : Lowering Node} [Grows P quiet loweredKey] [Composed loweredKey] :
    Grows P quiet (classFieldNode key span loweredKey) := by
  unfold classFieldNode
  split <;> infer_instance

/-! ## Statements, without what they contain -/

instance (s : Statement) {lowered : Lowering Node} [Grows P quiet lowered] [Composed lowered] :
    Grows P quiet (bodyNode s lowered) := by
  unfold bodyNode
  refine skim fun _ => bind inferInstance (fun node => ?_) fun node => ?_
  · split <;> infer_instance
  · split <;> infer_instance

instance (kind : VariableKind) (span : Span) : Grows P quiet (declarationKind kind span) := by
  unfold declarationKind
  split <;> infer_instance

/-- The node of a name takes the value in. -/
theorem declaratorNode {isName : Bool} (target : Node) [ht : Full P quiet target]
    (hk : isName = true → target.kind = .identifier) (value : List Node) [hv : Full P quiet value] (span : Span) :
    Full P quiet (declaratorNode isName target value span) := by
  unfold Lowering.declaratorNode
  split
  next h =>
    have hplain : target.kind.isPlain = true := hk h ▸ rfl
    have := ht.children hplain
    exact ht.change hplain inferInstance
  next => infer_instance

instance (isAwait : Bool) (span : Span) : Grows P quiet (valueLoopKind isAwait span) := by
  unfold valueLoopKind
  infer_instance

instance (label : Identifier) : Full P quiet (labelNode label) := by
  unfold labelNode
  infer_instance

instance (label : Option Identifier) (span : Span) : Grows P quiet (continueNode label span) := by
  unfold continueNode
  refine skim fun s => ?_
  cases label with
  | some label =>
      dsimp only
      split <;> infer_instance
  | none => infer_instance

instance (label : Option Identifier) (span : Span) : Grows P quiet (breakNode label span) := by
  unfold breakNode
  refine skim fun s => ?_
  cases label <;> infer_instance

end Grows

end Lowering

end EcmaScript
