import EcmaScript.Proofs.Layout.Rules
import EcmaScript.Proofs.Shape.Node

/-!
# What lowering makes of one expression

From an expression that plays the part of a value lowering makes a node that looks like it: the node is a link
of an optional chain if the expression is one, it opens with an arrow function if the expression does, and it
covers the same region, but for accesses and parentheses.

## Contents

* `operand`, `expression_pending`: a left operand is lowered before the operators that wait for it.
* `Face`, `face_expression`: the node of an expression looks like it.
* `settled_expression`: in any part.
-/

namespace EcmaScript

open IsPart (part)

/-- Whether the node of the expression is not where the expression is: an access stands at its name, what is
in parentheses stands without them, and a sequence stands where its operands do. -/
def Expression.isDisplaced : Expression → Bool
  | member .. | paren .. | sequence .. => true
  | _ => false

namespace Lowering

/-! ## Left operands -/

/-- Lowers the left operand of an operator. A private name can be that of the membership test. -/
def operand (operator : BinaryOperator) : Expression → Lowering Node
  | .privateName name =>
    if operator == .isIn then privateOperand name else misplacedPrivateName name
  | e => expression [] .value e

/-- **A left operand is lowered first**, and then the operators that wait for it are applied. -/
theorem expression_pending (q : PendingOperator) (pending : List PendingOperator) : (e : Expression) →
    expression (q :: pending) .value e = operand q.operator e >>= applyPending (q :: pending)
  | .binary operator left right span => by
      have hmany := expression_pending ⟨operator, expression [] .value right, span⟩ (q :: pending) left
      have hone := expression_pending ⟨operator, expression [] .value right, span⟩ [] left
      rw [operand, expression, expression, hmany, hone]
      · rfl
      · nofun
  | .privateName name => by
      rw [operand, expression, show awaitsMembership (q :: pending) = (q.operator == .isIn) from rfl]
      cases q.operator == .isIn <;> rfl
  | .identifier _ | .this _ | .super _ | .null _ | .boolean _ _ | .number _ _ | .bigint _ _ | .string _
  | .regexp _ _ _ | .template _ _ _ | .taggedTemplate _ _ _ _ _ | .function _ | .classExpression _
  | .unary _ _ _ | .update _ _ _ _ | .conditional _ _ _ _ | .sequence _ _
  | .construction _ _ _ _ | .await _ _ | .importMeta _ | .dynamicImport _ _ | .paren _ _ => by
      rw [operand, expression, expression]
      · rfl
      · nofun
  | .member _ _ optional _ | .computedMember _ _ optional _ | .call _ _ _ optional _ => by
      rw [operand, expression, expression]
      · cases optional <;> rfl
      · nofun
  | .yield _ _ _ => by
      rw [operand, expression, expression, bind_assoc]
      · refine bind_congr fun _ => (bind_congr fun s => ?_).trans (bind_assoc _ _ _).symm
        cases s.function.isGenerator <;> rfl
      · nofun
  | .newTarget _ => by
      rw [operand, expression, expression, bind_assoc]
      · refine bind_congr fun _ => (bind_congr fun s => ?_).trans (bind_assoc _ _ _).symm
        cases s.newTargetAllowed <;> rfl
      · nofun
  | .array _ trailingComma _ | .object _ trailingComma _ => by
      rw [operand, expression.eq_def, expression.eq_def]
      · cases trailingComma <;> rfl
      · nofun
  | .assignment operator _ _ _ => by
      rw [operand, expression.eq_def, expression.eq_def]
      · cases operator <;> rfl
      · nofun
  | .spread _ _ => by
      rw [operand, expression.eq_def, expression.eq_def]
      · rfl
      · nofun

/-- An operator, from the lowerings of its operands. -/
theorem expression_binary (role : Role) (operator : BinaryOperator) (left right : Expression) (span : Span) :
    expression [] role (.binary operator left right span) = (do
      role.check (.binary operator left right span)
      let a ← operand operator left
      recordBinary operator span
      let b ← expression [] .value right
      return .branch (.ofBinary operator) span [a, b]) := by
  rw [expression, expression_pending]
  rfl

/-- A left operand is lowered to the node of a value. -/
theorem renders_operand (operator : BinaryOperator) (e : Expression) :
    Gives (·.Renders .value e) (operand operator e) := by
  intro s
  cases e with
  | privateName name =>
      refine ⟨s, ?_⟩
      rw [expression, operand]
      split <;> rfl
  | _ => exact ⟨s, rfl⟩

theorem renders_expression (role : Role) (e : Expression) : Gives (·.Renders role e) (expression [] role e) :=
  fun s => ⟨s, rfl⟩

/-- Lowers what an assignment stores into. -/
def assigned (operator : AssignmentOperator) (left : Expression) : Lowering Node := do
  if operator == .assign then expression [] (.target .assignment) left
  else
    checkSimpleTarget left
    expression [] .value left

/-- Whether an assignment that plays the part gives a target its default. -/
def takesDefault : Role → Bool
  | .entry _ | .rest _ | .parameter _ => true
  | _ => false

/-- An assignment, from the lowerings of its operands, unless it gives a target its default. -/
theorem expression_assignment {role : Role} {operator : AssignmentOperator}
    (h : takesDefault role = false ∨ operator ≠ .assign) (left right : Expression) (span : Span) :
    expression [] role (.assignment operator left right span) = (do
      role.check (.assignment operator left right span)
      let a ← assigned operator left
      recordAssignment operator span
      let b ← expression [] .value right
      return .branch (.ofAssignment operator) span [a, b]) := by
  rw [expression.eq_def]
  rcases h with h | h
  · cases role with
    | value | callee | target => cases operator <;> rfl
    | _ => cases h
  · cases operator with
    | assign => exact absurd rfl h
    | _ => cases role <;> rfl

/-! ## The looks of a node -/

/-- The node looks like the expression. -/
structure Face (e : Expression) (n : Node) : Prop where
  chain : n.isChain = e.isOptionalChain
  arrow : n.isBareArrow = e.isArrow
  opens : n.opensWithArrow = e.opensWithArrow
  /-- What the node starts with opens as what is in the parentheses does. -/
  front : n.kind.startsWithChild = true → e.stripParens.isArrow = false ∧
    ∀ first ∈ n.children.head?, first.opensWithArrow = e.stripParens.opensWithArrow
  span : e.isDisplaced = false → n.span = e.span

variable {e : Expression} {n : Node}

theorem isBareArrow_eq_false (h : n.kind ≠ .function) : n.isBareArrow = false := by
  unfold Node.isBareArrow
  rw [beq_eq_false_iff_ne.mpr h]
  rfl

theorem opensWithArrow_eq_false (hkind : n.kind ≠ .function) (hstart : n.kind.startsWithChild = false) :
    n.opensWithArrow = false := by
  rw [Node.opensWithArrow_eq, beq_eq_false_iff_ne.mpr hkind, hstart]
  exact Bool.and_false _

theorem isChain_eq_false (h : n.kind.startsWithChild = false) : n.isChain = false := by
  unfold Node.isChain
  cases hk : n.kind <;> first | rfl | (rw [hk] at h; cases h)

/-- What does not start with a child and is no function is neither a link nor opens with an arrow function. -/
theorem Face.still (hkind : n.kind ≠ .function) (hstart : n.kind.startsWithChild = false)
    (hspan : e.isDisplaced = false → n.span = e.span) (hchain : e.isOptionalChain = false := by rfl)
    (harrow : e.isArrow = false := by rfl) (hopens : e.opensWithArrow = false := by rfl) : Face e n :=
  ⟨(isChain_eq_false hstart).trans hchain.symm, (isBareArrow_eq_false hkind).trans harrow.symm,
    (opensWithArrow_eq_false hkind hstart).trans hopens.symm,
    fun h => absurd (hstart.symm.trans h) Bool.noConfusion, hspan⟩

/-- What starts with a child opens with an arrow function if that child does. -/
theorem Face.led {a : Node} {others : List Node} (hstart : n.kind.startsWithChild = true)
    (hparens : n.flags.parenthesized = false) (hchildren : n.children = a :: others)
    (hopens : a.opensWithArrow = e.opensWithArrow) (hchain : n.kind.isChain = e.isOptionalChain)
    (harrow : e.isArrow = false) (hspan : e.isDisplaced = false → n.span = e.span)
    (hstrip : e.stripParens = e := by rfl) : Face e n := by
  have hkind : n.kind ≠ .function := by
    intro h
    rw [h] at hstart
    cases hstart
  refine ⟨?_, (isBareArrow_eq_false hkind).trans harrow.symm, ?_, fun _ => ?_, hspan⟩
  · rw [Node.isChain, hparens, hchain]
    exact Bool.and_true _
  · rw [Node.opensWithArrow_eq, hparens, beq_eq_false_iff_ne.mpr hkind, hstart, hchildren, ← hopens]
    rfl
  · rw [hstrip, hchildren]
    exact ⟨harrow, fun first hfirst => Option.mem_some.mp hfirst ▸ hopens⟩

/-- In parentheses nothing goes on. -/
theorem Face.paren {s : Span} (h : Face e n) :
    Face (.paren e s) (n.mark ({ · with parenthesized := true })) :=
  ⟨Bool.and_false _, Bool.and_false _, Node.opensWithArrow_eq _, h.front, nofun⟩

theorem face_function {f : Function} : Gives (Face (.function f)) (function f) := by
  obtain ⟨name, items, trailingComma, parametersSpan, body, kind, isAsync, isGenerator, span⟩ := f
  rw [function]
  refine .skim fun _ => .skim fun _ => .skim fun _ => .pure ⟨rfl, ?_, ?_, nofun, fun _ => rfl⟩
  · cases kind <;> rfl
  · cases kind <;> rfl

theorem face_classDefinition {c : ClassDefinition} : Gives (Face (.classExpression c)) (classDefinition c) := by
  obtain ⟨name, heritage, members, bodySpan, span⟩ := c
  intro s
  rw [classDefinition]
  cases name <;> cases heritage <;> exact .still nofun rfl fun _ => rfl

/-- Nodes joined by commas are a comma, if there is more than one. -/
theorem kind_commaNode (first second : Node) (others : List Node) :
    (commaNode (first :: second :: others)).kind = .comma := by
  show (List.foldl _ (Node.branch .comma _ [first, second]) others).kind = .comma
  generalize hn : Node.branch .comma (first.span.extendTo second.span) [first, second] = n
  have hk : n.kind = .comma := hn ▸ rfl
  clear hn
  induction others generalizing n with
  | nil => exact hk
  | cons third others ih => exact ih _ rfl

theorem gives_expressions_length (es : List Expression) :
    Gives (fun ns => ns.length = es.length) (expressions es) := by
  induction es with
  | nil =>
      rw [expressions]
      exact .pure rfl
  | cons e es ih =>
      rw [expressions]
      exact .skim fun _ => .bind ih fun _ h => .pure (congrArg (· + 1) h)

theorem face_sequence {items : List Expression} {s : Span} (h : 2 ≤ items.length) :
    Gives (fun ns => Face (.sequence items s) (commaNode ns)) (expressions items) := by
  refine (gives_expressions_length items).mono fun ns hns => ?_
  match ns, hns ▸ h with
  | first :: second :: others, _ =>
    have hk := kind_commaNode first second others
    exact .still (hk ▸ nofun) (hk ▸ rfl) nofun

/-- What is a link or not starts with its receiver. -/
theorem Face.link {a : Node} {others : List Node} {chained plain : NodeKind} {place : ChainPlace}
    (hkind : n.kind = if place.inChain then chained else plain)
    (hchained : chained.isChain = true) (hplain : plain.isChain = false)
    (hstart : plain.startsWithChild = true) (hparens : n.flags.parenthesized = false)
    (hchildren : n.children = a :: others) (hopens : a.opensWithArrow = e.opensWithArrow)
    (hchain : place.inChain = e.isOptionalChain) (harrow : e.isArrow = false)
    (hspan : e.isDisplaced = false → n.span = e.span) (hstrip : e.stripParens = e := by rfl) :
    Face e n := by
  refine .led ?_ hparens hchildren hopens ?_ harrow hspan hstrip
  · rw [hkind]
    split
    · cases chained <;> first | rfl | cases hchained
    · exact hstart
  · rw [hkind, ← hchain]
    cases place.inChain with
    | true => exact hchained
    | false => exact hplain

theorem gives_memberNode_shape (place : ChainPlace) (receiver : Node) (property : MemberName)
    (isCallee : Bool) (span : Span) :
    Gives (fun n => ∃ name, n = {
      kind := if place.inChain then .optionalProperty else .property, payload := .text name,
      children := [receiver], span, flags := { chainStart := place.startsChain } })
      (memberNode place receiver property isCallee span) := by
  unfold memberNode
  cases property with
  | plain => exact .skim fun _ => .pure ⟨_, rfl⟩
  | hidden => exact .skim fun _ => .pure ⟨_, rfl⟩

/-! ## Values -/

theorem gives_applyPending {Q : Node → Prop} (h : Q n) : Gives Q (applyPending [] n) := by
  rw [applyPending]
  exact .pure h

variable {P : Part → Prop} [hP : Part.Fitting P]

/-- **The node of a value looks like the expression**, by recursion on what is at its front. -/
theorem face_expression (role : Role) (hrole : role.targetKind? = none) :
    (e : Expression) → (part e).Every P → Gives (Face e) (expression [] role e)
  | .binary operator left right span, h => by
      have hleft := face_expression .value rfl left (h.nth (i := 1) rfl)
      have hstart : (NodeKind.ofBinary operator).startsWithChild = true := by cases operator <;> rfl
      have hchain : (NodeKind.ofBinary operator).isChain = false := by cases operator <;> rfl
      rw [expression_binary]
      refine .skim fun _ => .bind (renders_operand operator left) fun a ⟨s, ha⟩ => ?_
      exact .skim fun _ => .skim fun b => .pure (.led hstart rfl rfl (ha ▸ hleft s).opens hchain rfl fun _ => rfl)
  | .member receiver property optional span, h => by
      have hreceiver := face_expression .value rfl receiver (h.nth (i := 1) rfl)
      rw [expression]
      refine .skim fun _ => .note fun _ => .bind hreceiver fun a ha => ?_
      refine .bind (gives_memberNode_shape _ _ _ _ _) fun n ⟨name, hn⟩ => gives_applyPending ?_
      rw [hn]
      exact .link rfl rfl rfl rfl rfl rfl ha.opens rfl rfl nofun
  | .computedMember receiver key optional span, h => by
      have hreceiver := face_expression .value rfl receiver (h.nth (i := 1) rfl)
      rw [expression]
      refine .skim fun _ => .note fun _ => .bind hreceiver fun a ha => .skim fun b => gives_applyPending ?_
      exact .link rfl rfl rfl rfl rfl rfl ha.opens rfl rfl fun _ => rfl
  | .call callee items trailingComma optional span, h => by
      have hcallee := face_expression .callee rfl callee (h.nth (i := 1) rfl)
      rw [expression]
      refine .skim fun _ => .note fun _ => .bind hcallee fun a ha => .skim fun b => gives_applyPending ?_
      exact .link rfl rfl rfl rfl rfl rfl ha.opens rfl rfl fun _ => rfl
  | .taggedTemplate tag texts substitutions templateSpan span, h => by
      have htag := face_expression .value rfl tag (h.nth (i := 2) rfl)
      rw [expression]
      refine .skim fun _ => .bind htag fun a ha => .skim fun _ => .skim fun _ => gives_applyPending ?_
      exact .led rfl rfl rfl ha.opens rfl rfl fun _ => rfl
  | .function f, _ => by
      rw [expression]
      exact .skim fun _ => .bind face_function fun _ h => gives_applyPending h
  | .classExpression c, _ => by
      rw [expression]
      exact .skim fun _ => .bind face_classDefinition fun _ h => gives_applyPending h
  | .paren inner span, h => by
      have hinner := face_expression .value rfl inner (h.nth (i := 1) rfl)
      rw [expression]
      exact .skim fun _ => .bind hinner fun _ hn => gives_applyPending hn.paren
  | .sequence items span, h => by
      rw [expression]
      exact .skim fun _ => .bind (face_sequence (hP.fits h.own).1) fun _ h => gives_applyPending h
  | .array elements trailingComma span, _ | .object elements trailingComma span, _ => by
      rw [expression, hrole]
      exact .skim fun _ => .note fun _ => .skim fun _ => gives_applyPending (.still nofun rfl fun _ => rfl)
  | .identifier name, _ => by
      rw [expression]
      refine .skim fun _ => .bind (gives_identifier name) fun n hn => gives_applyPending ?_
      rw [hn]
      exact .still nofun rfl fun _ => rfl
  | .this span, _ | .null span, _ | .number value span, _ | .string value, _ => by
      rw [expression]
      exact .skim fun _ => gives_applyPending (.still nofun rfl fun _ => rfl)
  | .boolean value span, _ => by
      rw [expression]
      refine .skim fun _ => gives_applyPending ?_
      cases value <;> exact .still nofun rfl fun _ => rfl
  | .super span, _ => by
      rw [expression]
      exact .skim fun _ => .skim fun _ => gives_applyPending (.still nofun rfl fun _ => rfl)
  | .privateName name, _ => by
      have hoperand : Gives (Face (.privateName name)) (privateOperand name) :=
        .skim fun _ => .pure (.still nofun rfl fun _ => rfl)
      have hmisplaced : Gives (Face (.privateName name)) (misplacedPrivateName name) :=
        .skim fun _ => .pure (.still nofun rfl fun _ => rfl)
      rw [expression]
      exact .skim fun _ => .ite (.bind hoperand fun _ h => gives_applyPending h)
        (.bind hmisplaced fun _ h => gives_applyPending h)
  | .bigint value span, _ => by
      have hnode : Gives (Face (.bigint value span)) (bigintNode value span) :=
        .skim fun _ => .pure (.still nofun rfl fun _ => rfl)
      rw [expression]
      exact .skim fun _ => .bind hnode fun _ h => gives_applyPending h
  | .regexp pattern flags span, _ => by
      have hnode : Gives (Face (.regexp pattern flags span)) (regexpNode pattern flags span) :=
        .skim fun _ => .pure (.still nofun rfl fun _ => rfl)
      rw [expression]
      exact .skim fun _ => .bind hnode fun _ h => gives_applyPending h
  | .template texts substitutions span, _ => by
      rw [expression]
      exact .skim fun _ => .skim fun _ => .skim fun _ => gives_applyPending (.still nofun rfl fun _ => rfl)
  | .unary operator argument span, _ => by
      have hkind : NodeKind.ofUnary operator ≠ .function := by cases operator <;> nofun
      have hstart : (NodeKind.ofUnary operator).startsWithChild = false := by cases operator <;> rfl
      rw [expression]
      exact .skim fun _ => .skim fun _ => .skim fun _ => gives_applyPending (.still hkind hstart fun _ => rfl)
  | .update increment afterOperand argument span, _ => by
      rw [expression]
      refine .skim fun _ => .skim fun _ => .skim fun _ => gives_applyPending ?_
      cases increment <;> exact .still nofun rfl fun _ => rfl
  | .assignment operator left right span, _ => by
      have hkind : NodeKind.ofAssignment operator ≠ .function := by cases operator <;> nofun
      have hstart : (NodeKind.ofAssignment operator).startsWithChild = false := by cases operator <;> rfl
      have hnode (a b : Node) : Face (.assignment operator left right span)
        (.branch (.ofAssignment operator) span [a, b]) := .still hkind hstart fun _ => rfl
      have hdefault : takesDefault role = false := by cases role <;> first | rfl | cases hrole
      rw [expression_assignment (.inl hdefault)]
      exact .skim fun _ => .skim fun _ => .skim fun _ => .skim fun _ => .pure (hnode _ _)
  | .conditional test consequent alternate span, _ => by
      rw [expression]
      exact .skim fun _ => .skim fun _ => .skim fun _ => .skim fun _ =>
        gives_applyPending (.still nofun rfl fun _ => rfl)
  | .construction callee items trailingComma span, _ => by
      rw [expression]
      exact .skim fun _ => .skim fun _ => .skim fun _ => gives_applyPending (.still nofun rfl fun _ => rfl)
  | .spread argument span, _ => by
      rw [expression.eq_def]
      cases role with
      | value | callee =>
        exact .skim fun _ => .skim fun _ => .skim fun _ => gives_applyPending (.still nofun rfl fun _ => rfl)
      | _ => cases hrole
  | .yield argument delegates span, _ => by
      have hnode (operand : List Node) : Face (.yield argument delegates span)
        { kind := .yield, children := operand, span, flags := { delegates } } := .still nofun rfl fun _ => rfl
      rw [expression]
      exact .skim fun _ => .skim fun _ => .ite (.skim fun _ => gives_applyPending (hnode _))
        (.skim fun _ => .skim fun _ => gives_applyPending (hnode _))
  | .newTarget span, _ => by
      have hnode : Face (.newTarget span) (.leaf .newTarget span) := .still nofun rfl fun _ => rfl
      rw [expression]
      exact .skim fun _ => .skim fun _ => .ite (.skim fun _ => gives_applyPending hnode)
        (.skim fun _ => .skim fun _ => gives_applyPending hnode)
  | .await argument span, _ | .importMeta span, _ | .dynamicImport argument span, _ => by
      rw [expression]
      exact .skim fun _ => .skim fun _ => .skim fun _ => gives_applyPending (.still nofun rfl fun _ => rfl)

/-! ## Other parts -/

/-- What may stand by itself may do so without its parentheses. -/
theorem separate_stripParens (e : Expression) (h : (part e).Every P) (hs : e.Separate) :
    e.stripParens.Separate := by
  cases e with
  | paren inner span =>
      have hinner : inner.Separate := hP.fits h.own inner (List.mem_cons_of_mem _ List.mem_cons_self)
      exact separate_stripParens inner (h.nth (i := 1) rfl) hinner
  | _ => exact hs

theorem Face.settled (h : Face e n) (hs : e.stripParens.Separate) : n.Settled := by
  intro hstart first hfirst
  obtain ⟨harrow, hopens⟩ := h.front hstart
  rw [hopens first hfirst]
  exact hs.opens_eq_false (Bool.eq_false_iff.mp harrow)

omit hP in
theorem settled_of_kind {k : NodeKind} (hn : n.kind = k) (hk : k.startsWithChild = false) : n.Settled :=
  fun hstart => absurd (hk.symm.trans (hn ▸ hstart)) Bool.noConfusion

/-- The part that an expression plays makes a difference to these expressions only. -/
def readsRole : Expression → Bool
  | .array .. | .object .. | .assignment .. | .spread .. => true
  | _ => false

/-- Others are lowered like values, once they have been checked. -/
theorem expression_checked {role : Role} (hrole : role ≠ .callee) (h : readsRole e = false) :
    expression [] role e = (do
      role.check e
      expression [] .value e) := by
  rw [expression.eq_def, expression.eq_def [] .value]
  cases e with
  | array | object | assignment | spread => cases h
  | _ => cases role <;> first | rfl | exact absurd rfl hrole

/-- **What may stand by itself is settled**, whatever part it plays. -/
theorem settled_expression (role : Role) (e : Expression) (h : (part e).Every P) (hs : e.Separate) :
    Gives Node.Settled (expression [] role e) := by
  cases hrole : role.targetKind? with
  | none => exact (face_expression role hrole e h).mono fun _ hn => hn.settled (separate_stripParens e h hs)
  | some kind =>
    cases e with
    | array elements trailingComma span =>
        rw [expression, hrole]
        exact .skim fun _ => .skim fun _ => .skim fun _ => .pure (settled_of_kind rfl rfl)
    | object properties trailingComma span =>
        rw [expression, hrole]
        exact .skim fun _ => .skim fun _ => .skim fun _ => .pure (settled_of_kind rfl rfl)
    | assignment operator left right span =>
        have hkind : (NodeKind.ofAssignment operator).startsWithChild = false := by cases operator <;> rfl
        by_cases hdefault : takesDefault role = false ∨ operator ≠ .assign
        · rw [expression_assignment hdefault]
          exact .skim fun _ => .skim fun _ => .skim fun _ => .skim fun _ => .pure (settled_of_kind rfl hkind)
        · obtain ⟨hrole, rfl⟩ : takesDefault role = true ∧ operator = .assign := by simpa using hdefault
          rw [expression.eq_def]
          cases role with
          | entry => exact .skim fun _ => .skim fun _ => .skim fun _ => .pure (settled_of_kind rfl rfl)
          | parameter =>
            exact .skim fun _ => .skim fun _ => .skim fun _ => .skim fun _ => .skim fun _ =>
              .pure (settled_of_kind rfl rfl)
          | rest kind =>
            have hleft : left.Separate := (hP.fits h.own).2.1
            exact .skim fun _ => settled_expression (.target kind) left (h.nth (i := 1) rfl) hleft
          | value | callee | target => cases hrole
    | spread argument span =>
        rw [expression.eq_def]
        cases role with
        | parameter =>
          have hrest (u : Unit) : Gives Node.Settled (do
              let target ← expression [] (.target .binding) argument
              return .branch .iterRest span [target]) := .skim fun _ => .pure (settled_of_kind rfl rfl)
          exact .skim fun _ => .skim fun _ => .ite (.ite (.skim hrest) (hrest ())) (.note hrest)
        | _ => exact .skim fun _ => .skim fun _ => .skim fun _ => gives_applyPending (settled_of_kind rfl rfl)
    | _ =>
        rw [expression_checked (fun hc => by rw [hc] at hrole; cases hrole) rfl]
        exact .skim fun _ => (face_expression .value rfl _ h).mono fun _ hn => hn.settled (separate_stripParens _ h hs)

end Lowering

end EcmaScript
