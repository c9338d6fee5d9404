import EcmaScript.Proofs.Scope.Occurrence
import EcmaScript.Proofs.Shape.Face

/-!
# `yield` and `await` survive lowering

Whether a `yield` or `await` hides in the default of a parameter is asked of the node that the default was
lowered to. Nothing gets lost on the way: a node bears every `yield` and `await` of its expression that belongs to
the function around it (`bears_expression`). The proof goes along the recursion over expressions; functions and
classes are as far as it gets.

## Contents

* `Occurrence.Bears`, `Occurrence.BearsAll`: nodes that hold what is in a construct.
* `Lowering.bears_expression`: the node of an expression.
-/

namespace EcmaScript

open IsPart (part)

namespace Occurrence

/-- The node bears what is suspended in the construct. -/
def Bears (q : Occurrence) (n : Node) : Prop := ∀ x ∈ q.suspended, x ∈ n.suspensions

/-- The nodes bear what is suspended in the constructs. -/
def BearsAll (qs : List Occurrence) (ns : List Node) : Prop :=
  ∀ x ∈ suspendedAll qs, x ∈ Node.suspensionsAll ns

/-- A kind of node whose children belong to the function around it. -/
def isOpen (kind : NodeKind) : Bool := kind != .function && kind != .classDefinition

end Occurrence

/-- The children of a node belong to the function around it with the node. -/
theorem Node.mem_suspensions {n : Node} (h : Occurrence.isOpen n.kind = true) {x : Span × Problem}
    (hx : x ∈ suspensionsAll n.children) : x ∈ n.suspensions := by
  obtain ⟨kind, payload, children, span, _, _, _, _⟩ := n
  unfold suspensions
  cases kind with
  | function => cases h
  | classDefinition => cases h
  | yield => exact List.mem_cons_of_mem _ hx
  | await => exact List.mem_cons_of_mem _ hx
  | _ => exact hx

namespace Occurrence

variable {q : Occurrence} {qs rs : List Occurrence} {n : Node} {ns ms : List Node}

theorem bearsAll_nil : BearsAll [] ns := by
  intro x hx
  rw [suspendedAll_nil] at hx
  exact hx.elim

theorem BearsAll.cons (h : Bears q n) (hs : BearsAll qs ns) : BearsAll (q :: qs) (n :: ns) := by
  intro x hx
  rw [suspendedAll_cons] at hx
  rw [Node.suspensionsAll]
  rcases hx with hx | hx
  · exact List.mem_append_left _ (h x hx)
  · exact List.mem_append_right _ (hs x hx)

theorem BearsAll.one (h : Bears q n) : BearsAll [q] [n] := .cons h bearsAll_nil

/-- A construct in which nothing is suspended needs no node. -/
theorem BearsAll.skip (h : q.suspended = ∅) (hs : BearsAll qs ns) : BearsAll (q :: qs) ns := by
  intro x hx
  rw [suspendedAll_cons, h, Set.empty_union] at hx
  exact hs x hx

/-- More nodes in front do no harm. -/
theorem BearsAll.behind (h : BearsAll qs ns) (n : Node) : BearsAll qs (n :: ns) := by
  intro x hx
  exact List.mem_append_right _ (h x hx)

/-- Nodes may be put under one that belongs to the same function. -/
theorem BearsAll.under (h : BearsAll qs n.children) (hk : isOpen n.kind = true := by rfl) : BearsAll qs [n] := by
  intro x hx
  rw [Node.suspensionsAll]
  exact List.mem_append_left _ (Node.mem_suspensions hk (h x hx))

/-- A node bears a construct that is no `yield` and no `await`, if its children bear what is right below. -/
theorem BearsAll.node (h : BearsAll q.inner n.children) (hq : q.nests = false := by rfl)
    (hs : q.suspension? = none := by rfl) (hk : isOpen n.kind = true := by rfl) : Bears q n := by
  intro x hx
  rw [suspended_eq hq] at hx
  rcases hx with hx | hx
  · exact nomatch hs.symm.trans hx
  · exact Node.mem_suspensions hk (h x hx)

theorem BearsAll.yield {span : Span} (h : BearsAll q.inner n.children) (hk : n.kind = .yield) (hspan : n.span = span)
    (hq : q.nests = false := by rfl) (hs : q.suspension? = some (span, .yieldInParameterDefault) := by rfl) :
    Bears q n := by
  obtain ⟨kind, payload, children, _, _, _, _, _⟩ := n
  subst hk hspan
  intro x hx
  rw [suspended_eq hq] at hx
  rcases hx with hx | hx
  · cases hs.symm.trans hx
    exact List.mem_cons_self
  · exact List.mem_cons_of_mem _ (h x hx)

theorem BearsAll.await {span : Span} (h : BearsAll q.inner n.children) (hk : n.kind = .await) (hspan : n.span = span)
    (hq : q.nests = false := by rfl) (hs : q.suspension? = some (span, .awaitInParameterDefault) := by rfl) :
    Bears q n := by
  obtain ⟨kind, payload, children, _, _, _, _, _⟩ := n
  subst hk hspan
  intro x hx
  rw [suspended_eq hq] at hx
  rcases hx with hx | hx
  · cases hs.symm.trans hx
    exact List.mem_cons_self
  · exact List.mem_cons_of_mem _ (h x hx)

/-- A construct that is nothing but the one below it. -/
theorem Bears.outer {r : Occurrence} (h : Bears r n) (hi : q.inner = [r] := by rfl)
    (hq : q.nests = false := by rfl) (hs : q.suspension? = none := by rfl) : Bears q n := by
  intro x hx
  rw [suspended_eq hq, hi, suspendedAll_cons, suspendedAll_nil, Set.union_empty] at hx
  rcases hx with hx | hx
  · exact nomatch hs.symm.trans hx
  · exact h x hx

/-- Nothing is suspended where there is nothing below. -/
theorem suspended_leaf (hi : q.inner = [] := by rfl) (hq : q.nests = false := by rfl)
    (hs : q.suspension? = none := by rfl) : q.suspended = ∅ := by
  rw [suspended_eq hq, hi, suspendedAll_nil, Set.union_empty, hs]
  exact Set.eq_empty_of_forall_notMem nofun

theorem bears_of_empty (h : q.suspended = ∅) : Bears q n := by
  intro x hx
  rw [h] at hx
  exact hx.elim

/-- Flags do not matter. -/
theorem Bears.mark (h : Bears q n) (change : NodeFlags → NodeFlags) : Bears q (n.mark change) := by
  cases n
  exact h

end Occurrence

namespace Lowering

open Occurrence

variable {es : List Enclosure}

/-! ## Rules -/

theorem gives_leaf {q : Occurrence} {m : Lowering Node} (hi : q.inner = [] := by rfl)
    (hq : q.nests = false := by rfl) (hs : q.suspension? = none := by rfl) : Gives (Bears q) m :=
  fun _ => bears_of_empty (suspended_leaf hi hq hs)

/-- A function keeps what is in it to itself, and a class too. -/
theorem gives_nested {q r : Occurrence} {m : Lowering Node} (hr : r.nests = true)
    (hi : q.inner = [r] := by rfl) (hq : q.nests = false := by rfl) (hs : q.suspension? = none := by rfl)
    (hrs : r.suspension? = none := by rfl) : Gives (Bears q) m :=
  fun _ => (bears_of_empty (suspended_of_nests hr hrs)).outer hi hq hs

theorem gives_bearsAll {q : Occurrence} {qs : List Occurrence} {n : Node} {f : Lowering (List Node)}
    (hn : Bears q n) (hf : Gives (BearsAll qs) f) : Gives (BearsAll (q :: qs)) (do return n :: (← f)) :=
  .bind hf fun _ hns => .pure (.cons hn hns)

theorem isOpen_ofUnary (operator : UnaryOperator) : isOpen (.ofUnary operator) = true := by
  cases operator <;> rfl

theorem isOpen_ofBinary (operator : BinaryOperator) : isOpen (.ofBinary operator) = true := by
  cases operator <;> rfl

theorem isOpen_ofAssignment (operator : AssignmentOperator) : isOpen (.ofAssignment operator) = true := by
  cases operator <;> rfl

/-- A sequence bears what its items bear. -/
theorem mem_suspensions_commaNode {ns : List Node} {x : Span × Problem} (h : x ∈ Node.suspensionsAll ns) :
    x ∈ (commaNode ns).suspensions := by
  have hjoin (ns : List Node) (n : Node) (hx : x ∈ n.suspensions ∨ x ∈ Node.suspensionsAll ns) :
      x ∈ (ns.foldl (fun a b => .branch .comma (a.span.extendTo b.span) [a, b]) n).suspensions := by
    induction ns generalizing n with
    | nil => exact hx.resolve_right nofun
    | cons m ns ih =>
        refine ih _ ?_
        rw [Node.suspensionsAll, List.mem_append] at hx
        rcases hx with hn | hm | hns
        · exact .inl (Node.mem_suspensions rfl (List.mem_append_left _ hn))
        · exact .inl (Node.mem_suspensions rfl (List.mem_append_right _ (List.mem_append_left _ hm)))
        · exact .inr hns
  cases ns with
  | nil => cases h
  | cons n ns =>
      rw [Node.suspensionsAll, List.mem_append] at h
      exact hjoin ns n h

/-- A key that is not computed holds nothing. -/
theorem suspended_key {key : PropertyKey} {use : Use} (h : ∀ e s, key ≠ .computed e s) :
    suspended ⟨es, use, part key⟩ = ∅ := by
  cases key with
  | computed e s => exact absurd rfl (h e s)
  | _ => exact suspended_leaf

/-- A property written as a name only bears its default. -/
theorem bears_shorthand {name : Identifier} {default : Option Expression} {span : Span} {use : Use} {nameNode : Node}
    {values : List Node} (h : BearsAll (default.toList.map fun e => ⟨es, .value, part e⟩) values) :
    Bears ⟨es, use, part (Property.shorthand name default span)⟩
      (shorthandNode name (if values.isEmpty then nameNode else .branch .defaultValue span (nameNode :: values))) := by
  cases default with
  | none => exact bears_of_empty suspended_leaf
  | some e =>
      refine BearsAll.node ?_
      cases values with
      | nil => exact fun x hx => nomatch h x hx
      | cons v vs =>
          refine BearsAll.under ?_
          intro x hx
          exact List.mem_append_right _ (h x hx)

/-- An access by name bears its receiver. -/
theorem bears_memberNode {q : Occurrence} {receiver : Node} (h : BearsAll q.inner [receiver]) (place : ChainPlace)
    (property : MemberName) (isCallee : Bool) (span : Span) (hq : q.nests = false := by rfl)
    (hs : q.suspension? = none := by rfl) : Gives (Bears q) (memberNode place receiver property isCallee span) := by
  have hnode (name : String) : Bears q { kind := if place.inChain then .optionalProperty else .property
                                         payload := .text name, children := [receiver], span
                                         flags := { chainStart := place.startsChain } } :=
    BearsAll.node h hq hs (by dsimp only; split <;> rfl)
  unfold memberNode
  cases property <;> exact .skim fun _ => .skim fun name => .pure (hnode name)

section Members

variable {key : PropertyKey} {loweredKey loweredFunction : Lowering Node} {use : Use}

/-- A method bears its key. -/
theorem gives_objectMethodNode {f : Function} {span : Span}
    (h : Gives (Bears ⟨es, .value, part key⟩) loweredKey) :
    Gives (Bears ⟨es, .value, part (Property.method key f span)⟩)
      (objectMethodNode key f.kind span loweredKey loweredFunction) := by
  have hf : suspended ⟨es, .value, part f⟩ = ∅ := suspended_of_nests rfl rfl
  unfold objectMethodNode
  refine .skim fun _ => ?_
  cases key with
  | computed e s =>
      refine .skim fun _ => .bind h fun k hk => .skim fun n => .pure ?_
      exact BearsAll.node (.cons hk (.skip hf bearsAll_nil))
  | _ =>
      refine .skim fun _ => .skim fun n => .pure (BearsAll.node ?_ rfl rfl (by cases f.kind <;> rfl))
      exact .skip (suspended_key (by rintro _ _ ⟨⟩)) (.skip hf bearsAll_nil)

end Members

/-! ## The recursion -/

mutual

theorem bears_expression (es : List Enclosure) (role : Role) : (e : Expression) →
    Gives (Bears ⟨es, role.use, part e⟩) (expression [] role e)
  | .binary operator left right span => by
      have hr := bears_expression es .value right
      have hl : Gives (Bears ⟨es, .ofOperand operator left, part left⟩) (operand operator left) := by
        have hleft := bears_expression es .value left
        cases left with
        | privateName name => exact gives_leaf
        | _ => exact hleft
      rw [expression_binary]
      refine .skim fun _ => .bind hl fun a ha => .skim fun _ => .bind hr fun b hb => .pure ?_
      exact BearsAll.node (.cons ha (.one hb)) rfl rfl (isOpen_ofBinary operator)
  | .privateName _ | .identifier _ | .this _ | .super _ | .null _ | .boolean _ _ | .number _ _ | .bigint _ _
  | .string _ | .regexp _ _ _ | .newTarget _ | .importMeta _ => gives_leaf
  | .function f => gives_nested (r := ⟨es, .value, part f⟩) rfl
  | .classExpression d => gives_nested (r := ⟨es, .value, part d⟩) rfl
  | .template texts substitutions span => by
      rw [expression]
      refine .skim fun _ => .skim fun _ => .bind (bears_template es false texts substitutions) fun ns hns => ?_
      refine .pure (BearsAll.node ?_)
      show BearsAll ((_ ++ []).map _) ns
      rw [List.append_nil]
      exact hns
  | .taggedTemplate tag texts substitutions templateSpan span => by
      rw [expression]
      refine .skim fun _ => .bind (bears_expression es .value tag) fun n hn => .skim fun _ => ?_
      refine .bind (bears_template es true texts substitutions) fun ns hns => .pure (BearsAll.node (.cons hn ?_))
      refine BearsAll.under ?_
      show BearsAll (((_ ++ []) ++ []).map _) ns
      rw [List.append_nil, List.append_nil]
      exact hns
  | .array elements trailingComma span => by
      rw [expression]
      refine .skim fun _ => ?_
      split
      next kind hk =>
        refine .skim fun _ => .bind (bears_arrayPattern es kind trailingComma elements) fun ns hns => .pure ?_
        refine BearsAll.node ?_
        show BearsAll (if role.use.isPattern = true then _ else _) ns
        rwa [if_pos (by rw [Role.isPattern_use, hk]; rfl)]
      next hk =>
        refine .note fun _ => .bind (bears_arrayLiteral es elements) fun ns hns => .pure ?_
        refine BearsAll.node ?_
        show BearsAll (if role.use.isPattern = true then _ else _) ns
        rwa [if_neg (by rw [Role.isPattern_use, hk]; exact Bool.false_ne_true)]
  | .object properties trailingComma span => by
      rw [expression]
      refine .skim fun _ => ?_
      split
      next kind hk =>
        refine .skim fun _ => .bind (bears_objectPattern es kind properties) fun ns hns => .pure ?_
        refine BearsAll.node ?_
        show BearsAll (if role.use.isPattern = true then _ else _) ns
        rwa [if_pos (by rw [Role.isPattern_use, hk]; rfl)]
      next hk =>
        refine .note fun _ => .bind (bears_objectLiteral es properties) fun ns hns => .pure ?_
        refine BearsAll.node ?_
        show BearsAll (if role.use.isPattern = true then _ else _) ns
        rwa [if_neg (by rw [Role.isPattern_use, hk]; exact Bool.false_ne_true)]
  | .unary operator argument span => by
      rw [expression]
      refine .skim fun _ => .skim fun _ => .bind (bears_expression es .value argument) fun n hn => .pure ?_
      exact BearsAll.node (.one hn) rfl rfl (isOpen_ofUnary operator)
  | .update increment afterOperand argument span => by
      rw [expression]
      refine .skim fun _ => .skim fun _ => .bind (bears_expression es .value argument) fun n hn => .pure ?_
      exact BearsAll.node (.one hn) rfl rfl (by cases increment <;> rfl)
  | .dynamicImport argument span => by
      rw [expression]
      refine .skim fun _ => .skim fun _ => .bind (bears_expression es .value argument) fun n hn => .pure ?_
      exact BearsAll.node (.one hn)
  | .paren argument span => by
      rw [expression]
      refine .skim fun _ => .bind (bears_expression es .value argument) fun n hn => .pure ?_
      exact (hn.mark _).outer
  | .await argument span => by
      rw [expression]
      refine .skim fun _ => .skim fun _ => .bind (bears_expression es .value argument) fun n hn => .pure ?_
      exact BearsAll.await (.one hn) rfl rfl
  | .assignment operator left right span => by
      have hl (role : Role) := bears_expression es role left
      have hr := bears_expression es .value right
      rw [expression.eq_def]
      refine .skim fun _ => ?_
      dsimp only
      split
      · refine .bind (hl _) fun a ha => .bind hr fun b hb => .pure ?_
        exact BearsAll.node (.cons ha (.one hb))
      · refine .skim fun _ => .bind (hl _) fun a ha => .bind hr fun b hb => .skim fun _ => .pure ?_
        exact BearsAll.node (.cons ha (.one hb))
      · exact .mono (hl _) fun n hn => hn.outer
      next _ _ hentry hparameter hrest =>
        have hvalue (a : Node) (ha : ∃ use, (⟨es, role.use, part (Expression.assignment operator left right span)⟩ :
              Occurrence).inner = [⟨es, use, part left⟩, ⟨es, .value, part right⟩] ∧ Bears ⟨es, use, part left⟩ a) :
            Gives (Bears ⟨es, role.use, part (Expression.assignment operator left right span)⟩) (do
              recordAssignment operator span
              let value ← expression [] .value right
              applyPending [] (.branch (.ofAssignment operator) span [a, value])) := by
          obtain ⟨use, hi, ha⟩ := ha
          refine .skim fun _ => .bind hr fun b hb => .pure ?_
          refine BearsAll.node ?_ rfl rfl (isOpen_ofAssignment operator)
          rw [hi]
          exact .cons ha (.one hb)
        by_cases ho : operator = .assign
        · subst ho
          have hrole : role.use ≠ .rest := by
            cases role with
            | rest kind => exact absurd rfl (hrest kind rfl)
            | _ => nofun
          exact .bind (hl _) fun a ha => hvalue a ⟨_, if_neg hrole, ha⟩
        · rw [if_neg (by simpa using ho)]
          refine .skim fun _ => .bind (hl _) fun a ha => hvalue a ⟨_, ?_, ha⟩
          cases operator with
          | assign => exact absurd rfl ho
          | _ => rfl
  | .conditional test consequent alternate span => by
      rw [expression]
      refine .skim fun _ => .bind (bears_expression es .value test) fun a ha => ?_
      refine .bind (bears_expression es .value consequent) fun b hb => ?_
      refine .bind (bears_expression es .value alternate) fun c hc => .pure ?_
      exact BearsAll.node (.cons ha (.cons hb (.one hc)))
  | .sequence items span => by
      rw [expression]
      refine .skim fun _ => .bind (bears_expressions es items) fun ns hns => .pure ?_
      intro x hx
      rw [suspended_eq rfl] at hx
      rcases hx with hx | hx
      · cases hx
      · refine mem_suspensions_commaNode (hns x ?_)
        cases items with
        | nil => exact hx
        | cons e rest => simpa [Occurrence.inner, Part.pieces, Expression.pieces, IsPart.part, Function.comp_def] using hx
  | .member receiver property optional span => by
      rw [expression]
      refine .skim fun _ => .note fun _ => .bind (bears_expression es .value receiver) fun n hn => ?_
      have hq := bears_memberNode (q := ⟨es, role.use, part (Expression.member receiver property optional span)⟩)
        (.one hn) (chainPlace receiver optional) property (role == .callee) span
      exact .bind hq fun m hm => .pure hm
  | .computedMember receiver key optional span => by
      rw [expression]
      refine .skim fun _ => .note fun _ => .bind (bears_expression es .value receiver) fun a ha => ?_
      refine .bind (bears_expression es .value key) fun b hb => .pure ?_
      exact BearsAll.node (.cons ha (.one hb)) rfl rfl (by unfold elementNode; split <;> rfl)
  | .call callee items trailingComma optional span => by
      rw [expression]
      refine .skim fun _ => .note fun _ => .bind (bears_expression es .callee callee) fun n hn => ?_
      refine .bind (bears_expressions es items) fun ns hns => .pure ?_
      exact BearsAll.node (.cons hn hns) rfl rfl (by dsimp only; split <;> rfl)
  | .construction callee items trailingComma span => by
      rw [expression]
      refine .skim fun _ => .bind (bears_expression es .value callee) fun n hn => ?_
      refine .bind (bears_expressions es items) fun ns hns => .pure ?_
      refine BearsAll.node ?_
      simpa [Occurrence.inner, Part.pieces, Expression.pieces, IsPart.part, Function.comp_def] using BearsAll.cons hn hns
  | .spread argument span => by
      have he (role : Role) := bears_expression es role argument
      rw [expression.eq_def]
      refine .skim fun _ => ?_
      dsimp only
      split
      next place =>
        have hrest : Gives (Bears ⟨es, .parameter place, part (Expression.spread argument span)⟩) (do
            let target ← expression [] (.target .binding) argument
            return .branch .iterRest span [target]) :=
          .bind (he _) fun n hn => .pure (BearsAll.node (.one hn))
        exact .skim fun _ => .ite (.note fun _ => hrest) (.note fun _ => hrest)
      next hrole =>
        refine .skim fun _ => .bind (he .value) fun n hn => .pure (BearsAll.node ?_)
        have huse : role.use.ofSpread = .value := by
          cases role with
          | parameter place => exact absurd rfl (hrole place)
          | _ => rfl
        show BearsAll [⟨es, role.use.ofSpread, part argument⟩] [n]
        rw [huse]
        exact .one hn
  | .yield argument delegates span => by
      have hrest : Gives (Bears ⟨es, role.use, part (Expression.yield argument delegates span)⟩) (do
          let operand ← optional argument
          applyPending [] { kind := .yield, children := operand, span, flags := { delegates } }) := by
        refine .bind (bears_optional es argument) fun ns hns => .pure ?_
        refine BearsAll.yield ?_ rfl rfl
        cases argument <;> exact hns
      rw [expression]
      exact .skim fun _ => .skim fun _ => .ite hrest (.skim fun _ => hrest)

theorem bears_expressions (es : List Enclosure) : (items : List Expression) →
    Gives (BearsAll (items.map fun e => ⟨es, .value, part e⟩)) (expressions items)
  | [] => fun _ => bearsAll_nil
  | e :: rest => by
      rw [expressions]
      exact .bind (bears_expression es .value e) fun n hn => gives_bearsAll hn (bears_expressions es rest)

theorem bears_optional (es : List Enclosure) : (e : Option Expression) →
    Gives (BearsAll (e.toList.map fun e => ⟨es, .value, part e⟩)) (optional e)
  | none => fun _ => bearsAll_nil
  | some e => by
      rw [optional]
      exact .bind (bears_expression es .value e) fun n hn => .pure (.one hn)

theorem bears_template (es : List Enclosure) (tagged : Bool) (texts : List TemplateText) :
    (items : List Expression) →
      Gives (BearsAll ((Piece.partsAll (Piece.template texts items)).map fun p => ⟨es, .value, p⟩))
        (template tagged texts items)
  | [] => by
      rw [Piece.template, Piece.partsAll_texts]
      exact fun _ => bearsAll_nil
  | e :: rest => by
      cases texts with
      | nil => exact fun _ => bearsAll_nil
      | cons text texts =>
          have hr := bears_template es tagged texts rest
          rw [template]
          refine .skim fun t => .bind (bears_expression es .value e) fun n hn => .bind hr fun ns hns => .pure ?_
          refine .behind (BearsAll.cons ?_ hns) t
          exact fun x hx => Node.mem_suspensions rfl (List.mem_append_left _ (hn x hx))

theorem bears_arrayLiteral (es : List Enclosure) : (items : List ArrayElement) →
    Gives (BearsAll (items.map fun e => ⟨es, .value, part e⟩)) (arrayLiteral items)
  | [] => fun _ => bearsAll_nil
  | .hole span :: rest => by
      rw [arrayLiteral]
      exact gives_bearsAll (bears_of_empty suspended_leaf) (bears_arrayLiteral es rest)
  | .item e :: rest => by
      rw [arrayLiteral]
      exact .bind (bears_expression es .value e) fun n hn => gives_bearsAll hn.outer (bears_arrayLiteral es rest)
  | .spread argument span :: rest => by
      rw [arrayLiteral]
      refine .skim fun _ => .bind (bears_expression es .value argument) fun n hn => ?_
      exact gives_bearsAll (BearsAll.node (.one hn)) (bears_arrayLiteral es rest)

theorem bears_arrayPattern (es : List Enclosure) (kind : TargetKind) (trailingComma : Bool) :
    (items : List ArrayElement) →
      Gives (BearsAll (listed es (.listed · trailingComma) (items.map part))) (arrayPattern kind trailingComma items)
  | [] => fun _ => bearsAll_nil
  | .hole span :: rest => by
      rw [arrayPattern]
      exact gives_bearsAll (bears_of_empty suspended_leaf) (bears_arrayPattern es kind trailingComma rest)
  | .item e :: rest => by
      rw [arrayPattern]
      refine .bind (bears_expression es (.entry kind) e) fun n hn => ?_
      exact gives_bearsAll hn.outer (bears_arrayPattern es kind trailingComma rest)
  | .spread argument span :: rest => by
      rw [arrayPattern]
      refine .skim fun _ => .skim fun _ => .bind (bears_expression es (.rest kind) argument) fun n hn => ?_
      exact gives_bearsAll (BearsAll.node (.one hn)) (bears_arrayPattern es kind trailingComma rest)

theorem bears_objectLiteral (es : List Enclosure) : (items : List Property) →
    Gives (BearsAll (items.map fun p => ⟨es, .value, part p⟩)) (objectLiteral items)
  | [] => fun _ => bearsAll_nil
  | .keyValue (.computed key s) value span :: rest => by
      rw [objectLiteral]
      refine .skim fun _ => .bind (bears_expression es .value key) fun k hk => ?_
      refine .bind (bears_expression es .value value) fun n hn => ?_
      exact gives_bearsAll (BearsAll.node (.cons hk.outer (.one hn))) (bears_objectLiteral es rest)
  | .keyValue (.name _) value span :: rest | .keyValue (.hidden _) value span :: rest
  | .keyValue (.string _) value span :: rest | .keyValue (.number _ _) value span :: rest
  | .keyValue (.bigint _ _) value span :: rest => by
      rw [objectLiteral]
      · refine .skim fun _ => .bind (bears_expression es .value value) fun n hn => ?_
        refine gives_bearsAll (BearsAll.node ?_) (bears_objectLiteral es rest)
        exact .skip (suspended_key nofun) (.one hn)
      · nofun
  | .shorthand name default span :: rest => by
      have hd := bears_optional es default
      have hr := bears_objectLiteral es rest
      have hnode (nameNode : Node) : Gives (BearsAll (⟨es, .value, part (Property.shorthand name default span)⟩ ::
          rest.map fun p => ⟨es, .value, part p⟩)) (do
            let value ← optional default
            let node := if value.isEmpty then nameNode else .branch .defaultValue span (nameNode :: value)
            return shorthandNode name node :: (← objectLiteral rest)) :=
        .bind hd fun values hv => gives_bearsAll (bears_shorthand hv) hr
      rw [objectLiteral]
      refine .skim fun _ => .skim fun _ => .note fun _ => .skim fun nameNode => ?_
      cases default with
      | none => exact hnode nameNode
      | some value => exact .skim fun _ => hnode nameNode
  | .method key f span :: rest => by
      rw [objectLiteral]
      refine .bind (gives_objectMethodNode (bears_keyExpression es key)) fun n hn => ?_
      exact gives_bearsAll hn (bears_objectLiteral es rest)
  | .spread argument span :: rest => by
      rw [objectLiteral]
      refine .skim fun _ => .bind (bears_expression es .value argument) fun n hn => ?_
      exact gives_bearsAll (BearsAll.node (.one hn)) (bears_objectLiteral es rest)

theorem bears_objectPattern (es : List Enclosure) (kind : TargetKind) : (items : List Property) →
    Gives (BearsAll (listed es (.listed · false) (items.map part))) (objectPattern kind items)
  | [] => fun _ => bearsAll_nil
  | .keyValue (.computed key s) value span :: rest => by
      rw [objectPattern]
      refine .skim fun _ => .bind (bears_expression es .value key) fun k hk => ?_
      refine .bind (bears_expression es (.entry kind) value) fun n hn => ?_
      exact gives_bearsAll (BearsAll.node (.cons hk.outer (.one hn))) (bears_objectPattern es kind rest)
  | .keyValue (.name _) value span :: rest | .keyValue (.hidden _) value span :: rest
  | .keyValue (.string _) value span :: rest | .keyValue (.number _ _) value span :: rest
  | .keyValue (.bigint _ _) value span :: rest => by
      rw [objectPattern]
      · refine .skim fun _ => .bind (bears_expression es (.entry kind) value) fun n hn => ?_
        refine gives_bearsAll (BearsAll.node ?_) (bears_objectPattern es kind rest)
        exact .skip (suspended_key nofun) (.one hn)
      · nofun
  | .shorthand name default span :: rest => by
      have hd := bears_optional es default
      have hr := bears_objectPattern es kind rest
      rw [objectPattern]
      refine .skim fun _ => .note fun _ => .skim fun nameNode => .bind hd fun values hv => ?_
      exact gives_bearsAll (bears_shorthand hv) hr
  | .method key f span :: rest => by
      rw [objectPattern]
      exact .skim fun _ => gives_bearsAll (bears_of_empty suspended_leaf) (bears_objectPattern es kind rest)
  | .spread argument span :: rest => by
      rw [objectPattern]
      refine .skim fun _ => .skim fun _ => .skim fun _ => .bind (bears_expression es (.rest kind) argument) fun n hn => ?_
      exact gives_bearsAll (BearsAll.node (.one hn)) (bears_objectPattern es kind rest)

theorem bears_keyExpression (es : List Enclosure) : (key : PropertyKey) →
    Gives (Bears ⟨es, .value, part key⟩) (keyExpression key)
  | .computed e s => by
      rw [keyExpression]
      exact .mono (bears_expression es .value e) fun n hn => hn.outer
  | .name _ | .hidden _ | .string _ | .number _ _ | .bigint _ _ => gives_leaf

end

end Lowering

end EcmaScript
