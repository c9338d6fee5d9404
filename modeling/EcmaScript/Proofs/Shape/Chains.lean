import EcmaScript.Proofs.Shape.Script

/-!
# Optional chains

A link of an optional chain is an access or a call that is written with a question mark, or written behind
such a link without parentheses between them. The first link of a chain, which is the innermost one, carries
a mark of its own, and it is the only node that does. What is tagged and what is constructed is no optional
chain.

## Contents

* `Link`, `Expression.link?`: accesses and calls as they are written.
* `Node.Links`, `Drawn.link`: their nodes.
* `chain_starts`: the nodes of one chain, by induction along it.
* `parse_chains`: the tree of a parse.
-/

namespace EcmaScript

open IsPart (part)

/-! ## Accesses and calls -/

/-- An access or a call: whether it is written with a question mark, what it is written behind, its own
region, and the kinds of its node inside and outside of optional chains. -/
structure Link where
  optional : Bool
  receiver : Expression
  span : Span
  chained : NodeKind
  plain : NodeKind

/-- The access or call that the expression is. -/
def Expression.link? : Expression → Option Link
  | member receiver _ optional s => some ⟨optional, receiver, s, .optionalProperty, .property⟩
  | computedMember receiver _ optional s => some ⟨optional, receiver, s, .optionalElement, .element⟩
  | call callee _ _ optional s => some ⟨optional, callee, s, .optionalCall, .call⟩
  | _ => none

variable {P : Part → Prop} {quiet : Prop} {e : Expression} {n a : Node} {l : Link}

/-- The node is that of the link, behind the node of the receiver. -/
structure Node.Links (l : Link) (n a : Node) : Prop where
  kind : n.kind = if l.optional || l.receiver.isOptionalChain then l.chained else l.plain
  start : n.flags.chainStart = (l.optional && !l.receiver.isOptionalChain)
  span : n.span = l.span
  first : n.children.head? = some a
  receiver : ∃ role, a.Renders role l.receiver
  front : a.isChain = l.receiver.isOptionalChain

theorem Expression.isChain_link? (h : e.link? = some l) : l.chained.isChain = true ∧ l.plain.isChain = false := by
  cases e <;> cases h <;> exact ⟨rfl, rfl⟩

theorem Node.Links.isChain (h : n.Links l a) (he : e.link? = some l) :
    n.kind.isChain = (l.optional || a.isChain) := by
  obtain ⟨hchained, hplain⟩ := Expression.isChain_link? he
  rw [h.kind, h.front]
  cases l.optional || l.receiver.isOptionalChain with
  | true => exact hchained
  | false => exact hplain

variable [hP : Part.Fitting P]

/-- The node of a value is a link that goes on if the expression is one. -/
theorem isChain_of_renders {role : Role} (hrole : role.targetKind? = none) (he : (part e).Every P)
    (ha : a.Renders role e) : a.isChain = e.isOptionalChain := by
  obtain ⟨s, rfl⟩ := ha
  exact (Lowering.face_expression role hrole e he s).chain

namespace Node.Sprouts

/-- **The node of an access or call is drawn from one.** -/
theorem link (h : n.Sprouts P quiet) (hk : n.kind.operation? = some .link) :
    ∃ (e : Expression) (l : Link) (a : Node), (part e).Every P ∧ e.link? = some l ∧ n.Links l a := by
  obtain ⟨e, he, hdrawn, ho⟩ := h.drawn hk
  cases hdrawn with
  | member kind span flags children ha | computedMember kind span flags children ha
  | call kind span flags children ha =>
      have hfront := isChain_of_renders rfl (he.nth (i := 1) rfl) ha
      exact ⟨_, _, _, he, rfl, kind, flags, span, by rw [children]; rfl, ⟨_, ha⟩, hfront⟩
  | _ => cases ho

/-- Only links of optional chains start one. -/
theorem isChain_of_start (h : n.Sprouts P quiet) (hs : n.flags.chainStart = true) : n.kind.isChain = true := by
  have hk : n.kind.operation? = some .link := by
    obtain ⟨-, hno⟩ | ⟨e, -, hdrawn⟩ := h.own
    · exact absurd (hs.symm.trans hno) Bool.noConfusion
    · exact hdrawn.operation?_eq.trans (hdrawn.operation?_of_start hs)
  obtain ⟨e, l, a, -, hl, hn⟩ := h.link hk
  rw [hn.start, Bool.and_eq_true] at hs
  rw [hn.isChain hl, hs.1, Bool.true_or]

/-- What is tagged does not go on. -/
theorem isChain_tag (h : n.Sprouts P quiet) (hk : n.kind.operation? = some .tagged) :
    ∀ tag ∈ n.children.head?, tag.isChain = false := by
  obtain ⟨e, he, hdrawn, ho⟩ := h.drawn hk
  cases hdrawn with
  | taggedTemplate kind flags children ha =>
      rw [children]
      rintro _ ⟨⟩
      exact (isChain_of_renders rfl (he.nth (i := 2) rfl) ha).trans (hP.fits he.own).1
  | _ => cases ho

/-- Neither does what is constructed. -/
theorem isChain_constructed (h : n.Sprouts P quiet) (hk : n.kind.operation? = some .construction) :
    ∀ callee ∈ n.children.head?, callee.isChain = false := by
  obtain ⟨e, he, hdrawn, ho⟩ := h.drawn hk
  cases hdrawn with
  | construction kind flags children ha =>
      rw [children]
      rintro _ ⟨⟩
      exact (isChain_of_renders rfl (he.nth (i := 1) rfl) ha).trans (hP.fits he.own).1
  | _ => cases ho

end Node.Sprouts

/-! ## Chains -/

omit hP in
theorem Node.chain_eq (n : Node) :
    n.chain = n :: match n.children.head? with
      | some first => if first.isChain then first.chain else []
      | none => [] := by
  obtain ⟨kind, payload, children, span, flags, doc, leading, trailing⟩ := n
  cases children <;> rw [chain] <;> rfl

/-- **The last link of a chain starts it, and no other**, by induction along the chain. -/
theorem chain_starts (h : Grown P quiet n) (hk : n.kind.isChain = true) :
    ∃ k, n.chain.map (·.flags.chainStart) = List.replicate k false ++ [true] := by
  induction h with
  | @mk n own inner ih =>
      obtain ⟨e, l, a, -, hl, hn⟩ := own.link (NodeKind.operation?_of_isChain hk)
      rw [hn.isChain hl] at hk
      rw [Node.chain_eq, hn.first, List.map_cons, hn.start, ← hn.front]
      dsimp only
      cases ha : a.isChain with
      | true =>
          obtain ⟨k, hchain⟩ := ih a (List.mem_of_mem_head? hn.first) (Bool.and_eq_true_iff.mp ha).1
          refine ⟨k + 1, ?_⟩
          rw [if_pos rfl, hchain, Bool.not_true, Bool.and_false]
          rfl
      | false =>
          rw [ha, Bool.or_false] at hk
          refine ⟨0, ?_⟩
          rw [hk]
          rfl

/-! ## The whole parse -/

/-- What is drawn from the constructs of a program is drawn from expressions that occur in it. -/
theorem Expression.occursIn {program : List Statement} (h : (part e).Every (Part.FitsIn program)) :
    e.OccursIn program := h.own.2

/-- **An optional chain has exactly one start, and that is its innermost link.** In the tree of a parse no node
but a link of an optional chain is marked as a start, and from such a link on, along first children that are
links without parentheses, the last one is and the others are not. Every access or call is drawn from one of
the concrete tree, and its node is a link if it is written with a question mark or its receiver is a link
without parentheses. Nothing of this kind is tagged or constructed. -/
theorem parse_chains (name source : String) (o : Options) {tree : Node}
    (htree : tree ∈ (parse name source o).root) {n : Node} (hn : n ∈ tree.bare.preorder) :
    (n.flags.chainStart = true → n.kind.isChain = true) ∧
      (n.kind.isChain = true →
        ∃ k, n.chain.map (·.flags.chainStart) = List.replicate k false ++ [true]) ∧
      (n.kind.operation? = some .link →
        ∃ (e : Expression) (l : Link) (a : Node), e.OccursIn (concreteTree name source o) ∧
          e.link? = some l ∧ n.Links l a ∧ n.kind.isChain = (l.optional || a.isChain)) ∧
      (n.kind = .taggedTemplate ∨ n.kind = .new → ∀ first ∈ n.children.head?, first.isChain = false) := by
  have hgrown := (grown_parse name source o tree htree).1.of_mem_preorder hn
  refine ⟨hgrown.own.isChain_of_start, chain_starts hgrown, fun hk => ?_, ?_⟩
  · obtain ⟨e, l, a, he, hl, hlinks⟩ := hgrown.own.link hk
    exact ⟨e, l, a, Expression.occursIn he, hl, hlinks, hlinks.isChain hl⟩
  · rintro (hk | hk)
    · exact hgrown.own.isChain_tag (by rw [hk]; rfl)
    · exact hgrown.own.isChain_constructed (by rw [hk]; rfl)

/-- A chain of three links, of which the second is written with a question mark. -/
theorem parse_chains_call :
    ∃ tree ∈ (parse "a.js" "a.b?.c.d(e);" {}).root, ∃ n ∈ tree.bare.preorder,
      n.kind = .optionalCall ∧ n.chain.length = 3 ∧
        ∃ k, n.chain.map (·.flags.chainStart) = List.replicate k false ++ [true] := by
  obtain ⟨tree, htree, n, hn, hkind, hlength⟩ :
      ∃ tree ∈ (parse "a.js" "a.b?.c.d(e);" {}).root, ∃ n ∈ tree.bare.preorder,
        n.kind = .optionalCall ∧ n.chain.length = 3 := by
    decide +kernel
  have hchains := parse_chains "a.js" "a.b?.c.d(e);" {} htree hn
  exact ⟨tree, htree, n, hn, hkind, hlength, hchains.2.1 (by rw [hkind])⟩

end EcmaScript
