import EcmaScript.Proofs.Shape.Script

/-!
# Arrow functions as operands

An arrow function without parentheses is no operand. The grammar looks for one before an operator goes on from
its first operand, and before an access, a call or a template goes on from what is before it. It does not look
in the places that `Node.unguarded` names: behind a prefix operator, behind a binary operator, behind `new`
and behind `extends`. If nothing in these places opens with an arrow function, then in a tree without errors
no operand is one (`parse_operands_arrows`); and if something does, an operand is one.

## Contents

* `Node.operands`, `Node.unguarded`: the operands of a node, and those that the grammar does not look at.
* `Node.Sprouts.guarded`, `Node.Sprouts.settled_child`: one node.
* `guarded_preorder`, `exists_bare_of_opens`: all nodes of a tree, by induction.
* `parse_operands_arrows`: the tree of a parse.
-/

namespace EcmaScript

open IsPart (part)

/-- Neither a name nor an access is an arrow function. -/
theorem Expression.isArrow_of_isSimpleTarget {e : Expression} (h : e.isSimpleTarget = true) : e.isArrow = false := by
  cases e with
  | function => cases h
  | _ => rfl

/-! ## Operands -/

/-- The operators on one operand, but for increments. -/
def NodeKind.isPrefix : NodeKind → Bool
  | .not | .bitwiseNot | .plus | .minus | .typeof | .void | .delete | .await => true
  | _ => false

namespace Node

/-- The operand of a prefix operator, and the superclass of a class. -/
def prefixed (n : Node) : List Node :=
  if n.kind.isPrefix then n.children
  else if n.kind == .classDefinition then (n.children.drop 1).take 1
  else []

/-- The operands of a node that may not be arrow functions: those of unary, binary and update operators, the
condition of a conditional expression, receivers, callees, tags and superclasses. -/
def operands (n : Node) : List Node :=
  match n.kind.operation? with
  | some .binary | some .update => n.children
  | some .conditional | some .link | some .construction | some .tagged => n.children.take 1
  | some .assignment | some .comma => []
  | none => n.prefixed

/-- The operands that the grammar does not look at: behind a prefix operator, behind a binary one, behind `new`
and behind `extends`. -/
def unguarded (n : Node) : List Node :=
  match n.kind.operation? with
  | some .binary => n.children.drop 1
  | some .construction => n.children.take 1
  | none => n.prefixed
  | _ => []

theorem unguarded_subset (n : Node) : n.unguarded ⊆ n.operands := by
  unfold unguarded operands
  cases n.kind.operation? with
  | none => exact List.Subset.refl _
  | some operation =>
      cases operation with
      | binary => exact List.drop_subset _ _
      | construction => exact List.Subset.refl _
      | _ => exact List.nil_subset _

theorem operands_subset (n : Node) : n.operands ⊆ n.children := by
  have hprefixed : n.prefixed ⊆ n.children := by
    unfold prefixed
    split
    · exact List.Subset.refl _
    · split
      · exact List.Subset.trans (List.take_subset _ _) (List.drop_subset _ _)
      · exact List.nil_subset _
  unfold operands
  cases n.kind.operation? with
  | none => exact hprefixed
  | some operation =>
      cases operation with
      | binary | update => exact List.Subset.refl _
      | conditional | link | construction | tagged => exact List.take_subset _ _
      | assignment | comma => exact List.nil_subset _

theorem mem_take_one_iff {c : Node} {cs : List Node} : c ∈ cs.take 1 ↔ c ∈ cs.head? := by
  cases cs with
  | nil => exact ⟨nofun, nofun⟩
  | cons first rest => exact List.mem_singleton.trans ⟨fun h => h ▸ rfl, fun h => (Option.mem_some.mp h).symm⟩

theorem mem_head?_or_drop {c : Node} {cs : List Node} (h : c ∈ cs) : c ∈ cs.head? ∨ c ∈ cs.drop 1 := by
  rw [← mem_take_one_iff]
  exact List.mem_append.mp ((List.take_append_drop 1 cs).symm ▸ h)

/-- What a node starts with is an operand of it. -/
theorem mem_operands_of_head? {n first : Node} (hstart : n.kind.startsWithChild = true)
    (hfirst : first ∈ n.children.head?) : first ∈ n.operands := by
  obtain ⟨rest, hchildren⟩ := List.head?_eq_some_iff.mp hfirst
  rw [NodeKind.startsWithChild_eq] at hstart
  unfold operands
  rw [hchildren]
  cases ho : n.kind.operation? with
  | none =>
      rw [ho] at hstart
      cases hstart
  | some operation =>
      rw [ho] at hstart
      cases operation with
      | binary | link | tagged => exact List.mem_cons_self
      | _ => cases hstart

/-! ## Arrow functions -/

theorem opensWithArrow_of_isBareArrow {n : Node} (h : n.isBareArrow = true) : n.opensWithArrow = true := by
  unfold isBareArrow at h
  simp only [Bool.and_eq_true, Bool.not_eq_true'] at h
  rw [opensWithArrow_eq, h.2, h.1.1, h.1.2]
  rfl

/-- What opens with an arrow function is one or starts with something that does. -/
theorem bare_or_front {n : Node} (h : n.opensWithArrow = true) : n.isBareArrow = true ∨
    n.kind.startsWithChild = true ∧ ∃ first ∈ n.children.head?, first.opensWithArrow = true := by
  rw [opensWithArrow_eq, Bool.and_eq_true_iff, Bool.or_eq_true_iff] at h
  obtain ⟨hparens, harrow | hfront⟩ := h
  · exact .inl (Bool.and_eq_true_iff.mpr ⟨harrow, hparens⟩)
  · obtain ⟨hstart, hany⟩ := Bool.and_eq_true_iff.mp hfront
    cases hfirst : n.children.head? with
    | none =>
        rw [hfirst] at hany
        cases hany
    | some first =>
        rw [hfirst] at hany
        exact .inr ⟨hstart, first, rfl, hany⟩

end Node

variable {P : Part → Prop} {quiet : Prop} {n c : Node}

namespace Node.Sprouts

/-- What does not open with an arrow function is settled. -/
theorem settled_of_not_opens (h : c.Sprouts P quiet) (ho : c.opensWithArrow = false) : c.Settled := by
  cases hp : c.flags.parenthesized with
  | true => exact h.enclosed hp
  | false =>
      intro hstart first hfirst
      rw [opensWithArrow_eq, hp, hstart, Option.mem_def.mp hfirst] at ho
      exact (Bool.or_eq_false_iff.mp ho).2

/-- **What is below a node is settled** if the node is, unless the grammar did not look. -/
theorem settled_child (h : n.Sprouts P quiet) (hn : n.Settled)
    (hu : ∀ c ∈ n.unguarded, c.opensWithArrow = false) (hc : c ∈ n.children) (hinner : c.Sprouts P quiet) :
    c.Settled := by
  have hbehind := h.settled
  have hsplit := mem_head?_or_drop hc
  unfold unguarded at hu
  unfold Settled at hn
  rw [NodeKind.startsWithChild_eq] at hn
  rw [NodeKind.openChildren_eq] at hbehind
  cases ho : n.kind.operation? with
  | none =>
      rw [ho] at hbehind
      exact hbehind c hc
  | some operation =>
      rw [ho] at hbehind hu hn
      cases operation with
      | binary => exact hinner.settled_of_not_opens (hsplit.elim (hn rfl c) (hu c))
      | link | tagged => exact hsplit.elim (fun hfirst => hinner.settled_of_not_opens (hn rfl c hfirst)) (hbehind c)
      | construction =>
          refine hsplit.elim (fun hfirst => hinner.settled_of_not_opens (hu c ?_)) (hbehind c)
          exact mem_take_one_iff.mpr hfirst
      | _ => exact hbehind c hc

variable [hP : Part.Fitting P]

/-- The operand of an increment is a name or an access. -/
theorem guarded_update (h : n.Sprouts P quiet) (hquiet : quiet) (ho : n.kind.operation? = some .update) :
    ∀ c ∈ n.children, c.isBareArrow = false := by
  obtain ⟨e, he, hdrawn, ho⟩ := h.drawn ho
  cases hdrawn with
  | @update _ a _ _ argument _ kind flags children ha simple =>
      rw [children]
      obtain ⟨s, rfl⟩ := ha
      have hface := Lowering.face_expression .value rfl argument (he.nth (i := 1) rfl) s
      exact List.forall_mem_singleton.mpr (hface.arrow.trans (Expression.isArrow_of_isSimpleTarget (simple hquiet)))
  | _ => cases ho

/-- The grammar looks at the condition of a conditional expression. -/
theorem guarded_condition (h : n.Sprouts P quiet) (ho : n.kind.operation? = some .conditional) :
    ∀ c ∈ n.children.head?, c.opensWithArrow = false := by
  obtain ⟨e, he, hdrawn, ho⟩ := h.drawn ho
  cases hdrawn with
  | @conditional _ a _ test _ _ _ kind flags children ha =>
      rw [children]
      rintro _ ⟨⟩
      obtain ⟨s, rfl⟩ := ha
      have hface := Lowering.face_expression .value rfl test (he.nth (i := 1) rfl) s
      exact hface.opens.trans (hP.fits he.own).1
  | _ => cases ho

/-- **No operand of a settled node is an arrow function**, unless the grammar did not look. -/
theorem guarded (h : n.Sprouts P quiet) (hquiet : quiet) (hn : n.Settled)
    (hu : ∀ c ∈ n.unguarded, c.opensWithArrow = false) : ∀ c ∈ n.operands, c.isBareArrow = false := by
  intro c hc
  have hclosed (ho : c.opensWithArrow = false) : c.isBareArrow = false :=
    Bool.eq_false_iff.mpr fun hbare => Bool.eq_false_iff.mp ho (opensWithArrow_of_isBareArrow hbare)
  unfold unguarded at hu
  unfold operands at hc
  unfold Settled at hn
  rw [NodeKind.startsWithChild_eq] at hn
  cases ho : n.kind.operation? with
  | none =>
      rw [ho] at hc hu
      exact hclosed (hu c hc)
  | some operation =>
      rw [ho] at hc hu hn
      cases operation with
      | binary => exact hclosed ((mem_head?_or_drop hc).elim (hn rfl c) (hu c))
      | update => exact h.guarded_update hquiet ho c hc
      | conditional => exact hclosed (h.guarded_condition ho c (mem_take_one_iff.mp hc))
      | link | tagged => exact hclosed (hn rfl c (mem_take_one_iff.mp hc))
      | construction => exact hclosed (hu c hc)
      | assignment | comma => cases hc

end Node.Sprouts

/-! ## Trees -/

section Trees

variable [hP : Part.Fitting P]

/-- **No operand in a tree is an arrow function**, unless the grammar did not look, by induction on the tree. -/
theorem guarded_preorder (h : Grown P quiet n) (hquiet : quiet) (hn : n.Settled)
    (hu : ∀ m ∈ n.preorder, ∀ c ∈ m.unguarded, c.opensWithArrow = false) :
    ∀ m ∈ n.preorder, ∀ c ∈ m.operands, c.isBareArrow = false := by
  induction h with
  | @mk n own inner ih =>
      have hself := hu n n.self_mem_preorder
      rw [Node.preorder_eq] at hu ⊢
      obtain ⟨-, hbelow⟩ := List.forall_mem_cons.mp hu
      refine List.forall_mem_cons.mpr ⟨own.guarded hquiet hn hself, fun m hm => ?_⟩
      obtain ⟨c, hc, hmc⟩ := Node.exists_of_mem_preorderAll hm
      have hsettled := own.settled_child hn hself hc (inner c hc).own
      exact ih c hc hsettled (fun k hk => hbelow k (Node.mem_preorderAll_of_mem hc k hk)) m hmc

end Trees

/-- **Something opens with an arrow function only if it is one or has one as an operand**, by induction on
what it starts with. -/
theorem exists_bare_of_opens {tree : Node} (h : Grown P quiet n) (hn : n ∈ tree.preorder)
    (ho : n.opensWithArrow = true) :
    n.isBareArrow = true ∨ ∃ m ∈ tree.preorder, ∃ c ∈ m.operands, c.isBareArrow = true := by
  induction h with
  | @mk n own inner ih =>
      obtain hbare | ⟨hstart, first, hfirst, hopens⟩ := Node.bare_or_front ho
      · exact .inl hbare
      · have hc := List.mem_of_mem_head? hfirst
        obtain hbare | hrest := ih first hc (Node.mem_preorder_of_child hc tree hn) hopens
        · exact .inr ⟨n, hn, first, Node.mem_operands_of_head? hstart hfirst, hbare⟩
        · exact .inr hrest

/-! ## The whole parse -/

/-- **An arrow function without parentheses is no operand** of the operators in the tree of a parse without
errors, if and only if nothing opens with one in the places where the grammar does not look: behind a prefix
operator, behind a binary operator, behind `new` and behind `extends`. -/
theorem parse_operands_arrows (name source : String) (o : Options)
    (hclean : (parse name source o).sink.errorCount = 0) {tree : Node}
    (htree : tree ∈ (parse name source o).root) :
    (∀ n ∈ tree.bare.preorder, ∀ c ∈ n.operands, c.isBareArrow = false) ↔
      ∀ n ∈ tree.bare.preorder, ∀ c ∈ n.unguarded, c.opensWithArrow = false := by
  obtain ⟨hgrown, hsettled⟩ := grown_parse name source o tree htree
  refine ⟨fun h n hn c hc => Bool.eq_false_iff.mpr fun ho => ?_, guarded_preorder hgrown hclean hsettled⟩
  have hoperand := n.unguarded_subset hc
  have hcn := Node.mem_preorder_of_child (n.operands_subset hoperand) tree.bare hn
  obtain hbare | ⟨m, hm, a, ha, hbare⟩ := exists_bare_of_opens (hgrown.of_mem_preorder hcn) hcn ho
  · exact Bool.eq_false_iff.mp (h n hn c hoperand) hbare
  · exact Bool.eq_false_iff.mp (h m hm a ha) hbare

/-- An arrow function in parentheses is a receiver, and one without them an alternative. -/
theorem parse_operands_arrows_parentheses :
    (parse "a.js" "(x => y).z ? a : b => c;" {}).sink.errorCount = 0 ∧
      ∃ tree ∈ (parse "a.js" "(x => y).z ? a : b => c;" {}).root,
        ∀ n ∈ tree.bare.preorder, ∀ c ∈ n.operands, c.isBareArrow = false := by
  obtain ⟨hclean, tree, htree, hguarded⟩ :
      (parse "a.js" "(x => y).z ? a : b => c;" {}).sink.errorCount = 0 ∧
        ∃ tree ∈ (parse "a.js" "(x => y).z ? a : b => c;" {}).root,
          ∀ n ∈ tree.bare.preorder, ∀ c ∈ n.unguarded, c.opensWithArrow = false := by
    decide +kernel
  exact ⟨hclean, tree, htree, (parse_operands_arrows "a.js" _ {} hclean htree).mpr hguarded⟩

/-- **The right operand of a sum can be an arrow function** in a tree without errors. -/
theorem operands_parse_sum :
    (parse "a.js" "1 + x => y" {}).sink.errorCount = 0 ∧
      ∃ tree ∈ (parse "a.js" "1 + x => y" {}).root, ∃ n ∈ tree.bare.preorder,
        n.kind = .add ∧ ∃ c ∈ n.operands, c.isBareArrow = true := by
  decide +kernel

end EcmaScript
