import EcmaScript.Lowering.Tree
import EcmaScript.Proofs.CommentPolicy
import EcmaScript.Proofs.Shape.Concrete

/-!
# The shapes of trees

What is said of concrete trees is said of nodes here. An operator node is drawn from one expression of the
concrete tree (`Drawn`): it has the kind, the region and the marks of that expression, and its children are
what lowering makes of the operands. `Grown P` says this of all operators of a tree, with expressions of
which `P` holds, and of all nodes that what may not open with an arrow function does not.

## Contents

* `NodeKind.isChain`, `NodeKind.isPlain`, `NodeKind.openChildren`: families of kinds.
* `Node.opensWithArrow`, `Node.Settled`: where arrow functions stand.
* `Node.isChain`: links of optional chains.
* `Node.Renders`, `Expression.joined`, `Drawn`: nodes and expressions.
* `Grown`: trees.
-/

namespace EcmaScript

/-! ## Kinds -/

/-- What an operator does whose operands are looked at more closely. -/
inductive Operation where
  | binary
  | assignment
  | comma
  | conditional
  | update
  /-- An access or a call. -/
  | link
  | construction
  | tagged

namespace NodeKind

/-- The operators on two operands. -/
@[reducible] def isBinary : NodeKind → Bool
  | .or | .and | .coalesce | .bitwiseOr | .bitwiseXor | .bitwiseAnd | .equal | .notEqual | .strictEqual
  | .strictNotEqual | .less | .lessEqual | .greater | .greaterEqual | .instanceof | .isIn | .shiftLeft
  | .shiftRight | .shiftRightUnsigned | .add | .subtract | .multiply | .divide | .modulo
  | .exponent => true
  | _ => false

/-- The links of optional chains. -/
@[reducible] def isChain : NodeKind → Bool
  | .optionalProperty | .optionalElement | .optionalCall => true
  | _ => false

/-- Accesses and calls. -/
@[reducible] def isLink : NodeKind → Bool
  | .property | .element | .call | .optionalProperty | .optionalElement | .optionalCall => true
  | _ => false

/-- Whether a node of the kind is no operator of those whose operands are looked at more closely. -/
@[reducible] def isPlain : NodeKind → Bool
  | .or | .and | .coalesce | .bitwiseOr | .bitwiseXor | .bitwiseAnd | .equal | .notEqual | .strictEqual
  | .strictNotEqual | .less | .lessEqual | .greater | .greaterEqual | .instanceof | .isIn | .shiftLeft
  | .shiftRight | .shiftRightUnsigned | .add | .subtract | .multiply | .divide | .modulo | .exponent
  | .assign | .assignAdd | .assignSubtract | .assignMultiply | .assignDivide | .assignModulo
  | .assignExponent | .assignShiftLeft | .assignShiftRight | .assignShiftRightUnsigned
  | .assignBitwiseAnd | .assignBitwiseOr | .assignBitwiseXor | .assignAnd | .assignOr | .assignCoalesce
  | .property | .element | .call | .optionalProperty | .optionalElement | .optionalCall
  | .comma | .hook | .increment | .decrement | .taggedTemplate | .new => false
  | _ => true

/-- What a node of the kind does, if it is one of those operators. -/
def operation? : NodeKind → Option Operation
  | .comma => some .comma
  | .hook => some .conditional
  | .increment | .decrement => some .update
  | .new => some .construction
  | .taggedTemplate => some .tagged
  | kind =>
    if kind.isBinary then some .binary
    else if kind.isAssignment then some .assignment
    else if kind.isLink then some .link
    else none

/-- How many children of a node, from the first one on, may open with an arrow function. -/
@[reducible] def openChildren : NodeKind → Nat
  | .taggedTemplate | .new => 1
  | kind => if kind.isBinary then 2 else if kind.isLink then 1 else 0

/-- Whether a node of the kind starts with its first child. -/
@[reducible] def startsWithChild (kind : NodeKind) : Bool :=
  kind.isBinary || kind.isLink || kind == .taggedTemplate

theorem operation?_of_isPlain {kind : NodeKind} (h : kind.isPlain = true) : kind.operation? = none := by
  cases kind <;> first | rfl | cases h

theorem operation?_of_isBinary {kind : NodeKind} (h : kind.isBinary = true) : kind.operation? = some .binary := by
  cases kind <;> first | rfl | cases h

theorem operation?_of_isAssignment {kind : NodeKind} (h : kind.isAssignment = true) :
    kind.operation? = some .assignment := by
  cases kind <;> first | rfl | cases h

theorem operation?_of_isChain {kind : NodeKind} (h : kind.isChain = true) : kind.operation? = some .link := by
  cases kind <;> first | rfl | cases h

theorem startsWithChild_eq (kind : NodeKind) : kind.startsWithChild = match kind.operation? with
    | some .binary | some .link | some .tagged => true
    | _ => false := by
  cases kind <;> rfl

/-- Receivers, tags and callees may open with an arrow function, and both operands of a binary operator. -/
theorem openChildren_eq (kind : NodeKind) : kind.openChildren = match kind.operation? with
    | some .binary => 2
    | some .link | some .construction | some .tagged => 1
    | _ => 0 := by
  cases kind <;> rfl

theorem openChildren_of_isPlain {kind : NodeKind} (h : kind.isPlain = true) : kind.openChildren = 0 := by
  cases kind <;> first | rfl | cases h

theorem startsWithChild_of_isPlain {kind : NodeKind} (h : kind.isPlain = true) :
    kind.startsWithChild = false := by
  cases kind <;> first | rfl | cases h

theorem openChildren_ofBinary (operator : BinaryOperator) : (ofBinary operator).openChildren = 2 := by
  cases operator <;> rfl

theorem isPlain_ofUnary (operator : UnaryOperator) : (ofUnary operator).isPlain = true := by
  cases operator <;> rfl

end NodeKind

namespace Node

/-! ## Arrow functions -/

/-- An arrow function without parentheses. -/
def isBareArrow (n : Node) : Bool := n.kind == .function && n.flags.isArrow && !n.flags.parenthesized

/-- Whether an arrow function without parentheses stands at the front of a node without parentheses. -/
def opensWithArrow : Node → Bool
  | ⟨kind, _, children, _, flags, _, _, _⟩ =>
    !flags.parenthesized && (kind == .function && flags.isArrow || kind.startsWithChild &&
      match children with
      | first :: _ => first.opensWithArrow
      | [] => false)

theorem opensWithArrow_eq (n : Node) : n.opensWithArrow =
    (!n.flags.parenthesized && (n.kind == .function && n.flags.isArrow ||
      n.kind.startsWithChild && n.children.head?.any opensWithArrow)) := by
  obtain ⟨kind, payload, children, span, flags, doc, leading, trailing⟩ := n
  cases children <;> rw [opensWithArrow] <;> rfl

/-- What the node starts with does not open with an arrow function. -/
def Settled (n : Node) : Prop :=
  n.kind.startsWithChild = true → ∀ first ∈ n.children.head?, first.opensWithArrow = false

/-! ## Optional chains -/

/-- A link of an optional chain that goes on behind it. -/
def isChain (n : Node) : Bool := n.kind.isChain && !n.flags.parenthesized

/-- The node and the links before it, one after the other: first children, as long as they are links of an
optional chain and not in parentheses. -/
def chain : Node → List Node
  | ⟨kind, payload, children, span, flags, doc, leading, trailing⟩ =>
    ⟨kind, payload, children, span, flags, doc, leading, trailing⟩ ::
      match children with
      | first :: _ => if first.isChain then first.chain else []
      | [] => []

/-! ## Nodes of expressions -/

/-- The node is what lowering makes of the expression in its part. -/
def Renders (n : Node) (role : Role) (e : Expression) : Prop :=
  ∃ s, n = (Lowering.expression [] role e s).1

end Node

/-- What the expression does, if it is such an operator. -/
def Expression.operation? : Expression → Option Operation
  | binary .. => some .binary
  | assignment .. => some .assignment
  | sequence .. => some .comma
  | conditional .. => some .conditional
  | update .. => some .update
  | member .. | computedMember .. | call .. => some .link
  | construction .. => some .construction
  | taggedTemplate .. => some .tagged
  | _ => none

/-- The node of an operator is drawn from an expression. With `quiet`, nothing was wrong with the operand of
an increment or decrement. Of a sequence there is a node for every item but the first one. -/
inductive Drawn (quiet : Prop) : Expression → Node → Prop
  | binary {n a b : Node} {operator : BinaryOperator} {left right : Expression} {s : Span}
      (kind : n.kind = .ofBinary operator) (span : n.span = s) (flags : n.flags.chainStart = false)
      (children : n.children = [a, b]) (ha : a.Renders .value left) (hb : b.Renders .value right) :
      Drawn quiet (.binary operator left right s) n
  | assignment {n a b : Node} {operator : AssignmentOperator} {left right : Expression} {s : Span}
      {role : Role} (kind : n.kind = .ofAssignment operator) (span : n.span = s)
      (flags : n.flags.chainStart = false) (children : n.children = [a, b]) (ha : a.Renders role left)
      (hb : b.Renders .value right) : Drawn quiet (.assignment operator left right s) n
  | comma {n a b : Node} {first right : Expression} {between behind : List Expression} {s : Span}
      (kind : n.kind = .comma) (span : n.span = a.span.extendTo b.span)
      (flags : n.flags.chainStart = false) (children : n.children = [a, b])
      (ha : a.Renders .value (.joined first between)) (hb : b.Renders .value right) :
      Drawn quiet (.sequence (first :: (between ++ right :: behind)) s) n
  | conditional {n a : Node} {others : List Node} {test consequent alternate : Expression} {s : Span}
      (kind : n.kind = .hook) (flags : n.flags.chainStart = false) (children : n.children = a :: others)
      (ha : a.Renders .value test) : Drawn quiet (.conditional test consequent alternate s) n
  | update {n a : Node} {increment afterOperand : Bool} {argument : Expression} {s : Span}
      (kind : n.kind = if increment then .increment else .decrement) (flags : n.flags.chainStart = false)
      (children : n.children = [a]) (ha : a.Renders .value argument)
      (simple : quiet → argument.isSimpleTarget = true) :
      Drawn quiet (.update increment afterOperand argument s) n
  | member {n a : Node} {receiver : Expression} {property : MemberName} {optional : Bool} {s : Span}
      (kind : n.kind = if optional || receiver.isOptionalChain then .optionalProperty else .property)
      (span : n.span = s) (flags : n.flags.chainStart = (optional && !receiver.isOptionalChain))
      (children : n.children = [a]) (ha : a.Renders .value receiver) :
      Drawn quiet (.member receiver property optional s) n
  | computedMember {n a b : Node} {receiver key : Expression} {optional : Bool} {s : Span}
      (kind : n.kind = if optional || receiver.isOptionalChain then .optionalElement else .element)
      (span : n.span = s) (flags : n.flags.chainStart = (optional && !receiver.isOptionalChain))
      (children : n.children = [a, b]) (ha : a.Renders .value receiver) :
      Drawn quiet (.computedMember receiver key optional s) n
  | call {n a : Node} {arguments : List Node} {callee : Expression} {items : List Expression}
      {trailingComma optional : Bool} {s : Span}
      (kind : n.kind = if optional || callee.isOptionalChain then .optionalCall else .call)
      (span : n.span = s) (flags : n.flags.chainStart = (optional && !callee.isOptionalChain))
      (children : n.children = a :: arguments) (ha : a.Renders .callee callee) :
      Drawn quiet (.call callee items trailingComma optional s) n
  | construction {n a : Node} {arguments : List Node} {callee : Expression} {items : List Expression}
      {trailingComma : Bool} {s : Span} (kind : n.kind = .new) (flags : n.flags.chainStart = false)
      (children : n.children = a :: arguments) (ha : a.Renders .value callee) :
      Drawn quiet (.construction callee items trailingComma s) n
  | taggedTemplate {n a : Node} {others : List Node} {tag : Expression} {texts : List TemplateText}
      {values : List Expression} {templateSpan s : Span} (kind : n.kind = .taggedTemplate)
      (flags : n.flags.chainStart = false) (children : n.children = a :: others)
      (ha : a.Renders .value tag) : Drawn quiet (.taggedTemplate tag texts values templateSpan s) n

/-- The node does what the expression does. -/
theorem Drawn.operation?_eq {quiet : Prop} {e : Expression} {n : Node} (h : Drawn quiet e n) :
    n.kind.operation? = e.operation? := by
  cases h with
  | @binary _ _ _ operator _ _ _ kind =>
      rw [kind]
      cases operator <;> rfl
  | @assignment _ _ _ operator _ _ _ _ kind =>
      rw [kind]
      cases operator <;> rfl
  | comma kind | conditional kind | construction kind | taggedTemplate kind =>
      rw [kind]
      rfl
  | update kind | member kind | computedMember kind | call kind =>
      rw [kind]
      split <;> rfl

/-- What is drawn from an expression is an operator. -/
theorem Drawn.isPlain_eq_false {quiet : Prop} {e : Expression} {n : Node} (h : Drawn quiet e n) :
    n.kind.isPlain = false := by
  refine Bool.eq_false_iff.mpr fun hplain => ?_
  have hnone := h.operation?_eq.symm.trans (NodeKind.operation?_of_isPlain hplain)
  cases h <;> cases hnone

/-- Only an access or a call starts an optional chain. -/
theorem Drawn.operation?_of_start {quiet : Prop} {e : Expression} {n : Node} (h : Drawn quiet e n)
    (hs : n.flags.chainStart = true) : e.operation? = some .link := by
  cases h with
  | member | computedMember | call => rfl
  | binary _ _ flags | assignment _ _ flags | comma _ _ flags | conditional _ flags | update _ flags
  | construction _ flags | taggedTemplate _ flags => exact absurd (hs.symm.trans flags) Bool.noConfusion

/-- Other marks change nothing of that. -/
theorem Drawn.mark {quiet : Prop} {e : Expression} {n : Node} (h : Drawn quiet e n)
    {change : NodeFlags → NodeFlags} (hc : (change n.flags).chainStart = n.flags.chainStart) :
    Drawn quiet e (n.mark change) := by
  cases h with
  | binary kind span flags children ha hb => exact .binary kind span (hc.trans flags) children ha hb
  | assignment kind span flags children ha hb => exact .assignment kind span (hc.trans flags) children ha hb
  | comma kind span flags children ha hb => exact .comma kind span (hc.trans flags) children ha hb
  | conditional kind flags children ha => exact .conditional kind (hc.trans flags) children ha
  | update kind flags children ha simple => exact .update kind (hc.trans flags) children ha simple
  | member kind span flags children ha => exact .member kind span (hc.trans flags) children ha
  | computedMember kind span flags children ha => exact .computedMember kind span (hc.trans flags) children ha
  | call kind span flags children ha => exact .call kind span (hc.trans flags) children ha
  | construction kind flags children ha => exact .construction kind (hc.trans flags) children ha
  | taggedTemplate kind flags children ha => exact .taggedTemplate kind (hc.trans flags) children ha

/-- What is said of one node of a tree: if it is an operator, it is drawn from an expression of which `P`
holds; in parentheses, and below it but for some children, what starts with something does not open with an
arrow function; and nothing stands at its side. -/
structure Node.Sprouts (P : Part → Prop) (quiet : Prop) (n : Node) : Prop where
  fresh : n.doc = none ∧ n.leading = none ∧ n.trailing = none
  enclosed : n.flags.parenthesized = true → n.Settled
  settled : ∀ c ∈ n.children.drop n.kind.openChildren, c.Settled
  own : n.kind.isPlain = true ∧ n.flags.chainStart = false ∨
    ∃ e, (Part.expression e).Every P ∧ Drawn quiet e n

/-- An operator is drawn from an expression that does the same. -/
theorem Node.Sprouts.drawn {P : Part → Prop} {quiet : Prop} {n : Node} (h : n.Sprouts P quiet)
    {operation : Operation} (hk : n.kind.operation? = some operation) :
    ∃ e, (Part.expression e).Every P ∧ Drawn quiet e n ∧ e.operation? = some operation := by
  obtain ⟨hplain, -⟩ | ⟨e, he, hdrawn⟩ := h.own
  · cases (NodeKind.operation?_of_isPlain hplain).symm.trans hk
  · exact ⟨e, he, hdrawn, hdrawn.operation?_eq.symm.trans hk⟩

/-- This is said of all nodes of the tree. -/
inductive Grown (P : Part → Prop) (quiet : Prop) : Node → Prop
  | mk {n : Node} (own : n.Sprouts P quiet) (inner : ∀ c ∈ n.children, Grown P quiet c) : Grown P quiet n

namespace Grown

variable {P : Part → Prop} {quiet : Prop} {n : Node}

theorem own (h : Grown P quiet n) : n.Sprouts P quiet := by
  cases h with
  | mk own _ => exact own

theorem inner (h : Grown P quiet n) : ∀ c ∈ n.children, Grown P quiet c := by
  cases h with
  | mk _ inner => exact inner

/-- A node with other marks, which is settled if it is in parentheses. -/
theorem mark (h : Grown P quiet n) {change : NodeFlags → NodeFlags}
    (hc : (change n.flags).chainStart = n.flags.chainStart)
    (he : (change n.flags).parenthesized = true → n.Settled) : Grown P quiet (n.mark change) :=
  .mk ⟨h.own.fresh, he, h.own.settled, h.own.own.imp (fun ⟨hk, hs⟩ => ⟨hk, hc.trans hs⟩)
    fun ⟨e, hp, hd⟩ => ⟨e, hp, hd.mark hc⟩⟩ h.inner

end Grown

namespace Node

theorem bareAll_eq_self {ns : List Node} (h : ∀ n ∈ ns, n.bare = n) : bareAll ns = ns := by
  induction ns with
  | nil => rfl
  | cons n ns ih =>
      obtain ⟨hn, hns⟩ := List.forall_mem_cons.mp h
      rw [bareAll, hn, ih hns]

theorem exists_of_mem_preorderAll {m : Node} {ns : List Node} (h : m ∈ preorderAll ns) :
    ∃ n ∈ ns, m ∈ n.preorder := by
  induction ns with
  | nil =>
      rw [preorderAll] at h
      cases h
  | cons n ns ih =>
      rw [preorderAll] at h
      obtain h | h := List.mem_append.mp h
      · exact ⟨n, List.mem_cons_self, h⟩
      · obtain ⟨c, hc, hm⟩ := ih h
        exact ⟨c, List.mem_cons_of_mem n hc, hm⟩

end Node

namespace Grown

variable {P : Part → Prop} {quiet : Prop} {n : Node}

/-- A tree that has grown carries no comments. -/
theorem bare_eq (h : Grown P quiet n) : n.bare = n := by
  induction h with
  | @mk n own _ ih =>
      obtain ⟨kind, payload, children, span, flags, doc, leading, trailing⟩ := n
      obtain ⟨rfl, rfl, rfl⟩ := own.fresh
      rw [Node.bare, Node.bareAll_eq_self ih]

/-- What holds of a tree that has grown holds of all of its nodes. -/
theorem of_mem_preorder {m : Node} (h : Grown P quiet n) (hm : m ∈ n.preorder) : Grown P quiet m := by
  induction h generalizing m with
  | @mk n own inner ih =>
      rw [Node.preorder_eq] at hm
      obtain rfl | hm := List.mem_cons.mp hm
      · exact .mk own inner
      · obtain ⟨c, hc, hmc⟩ := Node.exists_of_mem_preorderAll hm
        exact ih c hc hmc

end Grown

end EcmaScript
