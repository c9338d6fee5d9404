import EcmaScript.Lowering.Tree
import EcmaScript.Proofs.Places.Remarks

/-!
# Places in the tree

A node is in the text if its region and the regions of its comments are, if its children stand in it one
behind the other where they are statements, and if all nodes below it are in the text as well. The
constructors and updates of nodes keep this so.

## Contents

* `NodeKind.isList`, `Node.Stands`: one node and its regions.
* `InText.node_iff`: a node is in the text if and only if it stands there and its children are there.
* Instances for the ways to build nodes.
* `Node.boundNames` and `Node.suspensions` speak of places in the text.
-/

namespace EcmaScript

instance : HasPlaces String := .trivial _

instance : HasPlaces AttachedComment := ⟨fun text c => c.span.Located text⟩

/-- Whether the children of a node of the kind are a list of statements. -/
@[reducible] def NodeKind.isList : NodeKind → Bool
  | .script | .moduleBody | .block => true
  | _ => false

/-- The regions of a node and of the comments attached to it are regions of the text, and the statements of
a list lie in it one behind the other. -/
structure Node.Stands (text : List Char) (n : Node) : Prop where
  span : n.span.Located text
  leading : ∀ c ∈ n.leading, c.span.Located text
  trailing : ∀ c ∈ n.trailing, c.span.Located text
  arranged : n.kind.isList = true → n.span.Arranges (n.children.map (·.span))

/-- A kind is as good as a place in the text if its nodes are no lists of statements. -/
instance : HasPlaces NodeKind := ⟨fun _ kind => kind.isList = false⟩

instance : HasPlaces Node := ⟨fun text n => ∀ m ∈ n.preorder, m.Stands text⟩

namespace InText

variable {text : List Char}

instance (s : String) : InText text s := ⟨True.intro⟩

/-- The condition does not hold, as far as reduction can tell. -/
class inductive IsFalse : Bool → Prop
  | mk : IsFalse false

attribute [instance] IsFalse.mk

instance (priority := low) {kind : NodeKind} [h : IsFalse kind.isList] : InText text kind := by
  generalize hb : kind.isList = b at h
  cases h
  exact ⟨hb⟩

theorem preorderAll_iff {ns : List Node} :
    (∀ m ∈ Node.preorderAll ns, m.Stands text) ↔ InText text ns := by
  induction ns with
  | nil => simp [Node.preorderAll]
  | cons n ns ih =>
      rw [Node.preorderAll, List.forall_mem_append, ih, cons_iff]
      exact and_congr_left fun _ => ⟨fun h => ⟨h⟩, fun h => h.located⟩

/-- **A tree is in the text if its root stands there and the trees below it are there.** -/
theorem node_iff {n : Node} : InText text n ↔ n.Stands text ∧ InText text n.children := by
  have hpre : InText text n ↔ ∀ m ∈ n.preorder, m.Stands text :=
    ⟨fun h => h.located, fun h => ⟨h⟩⟩
  obtain ⟨kind, payload, children, span, flags, doc, leading, trailing⟩ := n
  rw [hpre, Node.preorder, List.forall_mem_cons, preorderAll_iff]

section Nodes

variable {n m : Node} {ns : List Node} {kind : NodeKind} {payload : Payload} {s : Span}
  {flags : NodeFlags} {doc : Option Doc.Info} {before after : Option AttachedComment} {value : String}
  {change : NodeFlags → NodeFlags}

/-- A list of statements that stand one behind the other. -/
theorem list (hs : InText text s) (hc : InText text ns) (ho : s.Arranges (ns.map (·.span)))
    [hb : InText text before] [ha : InText text after] :
    InText text (Node.mk kind payload ns s flags doc before after) :=
  node_iff.mpr ⟨⟨span_iff.mp hs, hb.located, ha.located, fun _ => ho⟩, hc⟩

instance [hk : InText text kind] [hc : InText text ns] [hs : InText text s]
    [hb : InText text before] [ha : InText text after] :
    InText text (Node.mk kind payload ns s flags doc before after) :=
  node_iff.mpr ⟨⟨span_iff.mp hs, hb.located, ha.located, fun h => nomatch h.symm.trans hk.located⟩, hc⟩

/-- Another node at the same place, with children that stand where those of the first one do. -/
theorem inPlace (h : InText text n) [hc : InText text ns] [hb : InText text before]
    [ha : InText text after] (hs : ns.map (·.span) = n.children.map (·.span)) :
    InText text (Node.mk n.kind payload ns n.span flags doc before after) :=
  have hn := (node_iff.mp h).1
  node_iff.mpr ⟨⟨hn.span, hb.located, ha.located, fun hk => hs ▸ hn.arranged hk⟩, hc⟩

instance [h : InText text n] [InText text before] [InText text after] :
    InText text (Node.mk n.kind payload n.children n.span flags doc before after) :=
  have := (node_iff.mp h).2
  inPlace h rfl

instance [h : InText text n] : InText text n.span := span_iff.mpr (node_iff.mp h).1.span

instance [h : InText text n] : InText text n.children := (node_iff.mp h).2

instance [h : InText text n] : InText text n.leading := ⟨(node_iff.mp h).1.leading⟩

instance [h : InText text n] : InText text n.trailing := ⟨(node_iff.mp h).1.trailing⟩

instance [hs : InText text s] : InText text (Node.leaf kind s) := list hs inferInstance (.nil _ _)

instance [InText text kind] [InText text s] [InText text ns] : InText text (Node.branch kind s ns) :=
  inferInstanceAs (InText text (Node.mk ..))

/-- A node alone in another one over the same region. -/
theorem alone [h : InText text n] : InText text (Node.branch kind n.span [n]) :=
  list inferInstance inferInstance n.span.arranges_self

instance {below : NodeKind} [InText text (Node.branch below s ns)] :
    InText text (Node.branch kind s [Node.branch below s ns]) := alone (n := Node.branch below s ns)

instance [hs : InText text s] : InText text (Node.text kind value s) :=
  list hs inferInstance (.nil _ _)

instance [InText text s] : InText text (Node.name value s) :=
  inferInstanceAs (InText text (Node.mk ..))

instance [InText text s] : InText text (Node.empty s) := inferInstanceAs (InText text (Node.mk ..))

instance [InText text n] : InText text (n.mark change) := inferInstanceAs (InText text (Node.mk ..))

end Nodes

end InText

/-! ## What is found in a tree -/

namespace Node

mutual

theorem child_induction {motive : Node → Prop} (step : ∀ n, (∀ m ∈ n.children, motive m) → motive n) :
    (n : Node) → motive n
  | ⟨_, _, children, _, _, _, _, _⟩ => step _ (child_induction_all step children)

theorem child_induction_all {motive : Node → Prop}
    (step : ∀ n, (∀ m ∈ n.children, motive m) → motive n) : (ns : List Node) → ∀ m ∈ ns, motive m
  | [] => nofun
  | n :: ns => List.forall_mem_cons.mpr ⟨child_induction step n, child_induction_all step ns⟩

end

variable {text : List Char}

theorem inText_boundNamesAll {ns : List Node} (h : ∀ n ∈ ns, InText text n.boundNames) :
    InText text (boundNamesAll ns) := by
  induction ns with
  | nil =>
      rw [boundNamesAll]
      infer_instance
  | cons n ns ih =>
      obtain ⟨hn, hns⟩ := List.forall_mem_cons.mp h
      have := ih hns
      rw [boundNamesAll]
      infer_instance

/-- The names that a target binds stand in the text. -/
theorem inText_boundNames {n : Node} : InText text n → InText text n.boundNames := by
  induction n using child_induction with
  | step n ih =>
      intro h
      obtain ⟨hn, hc⟩ := InText.node_iff.mp h
      obtain ⟨kind, payload, children, span, flags, doc, before, after⟩ := n
      have hs : InText text span := InText.span_iff.mpr hn.span
      have hchild (m : Node) (hm : m ∈ children) := ih m hm ⟨hc.located m hm⟩
      have hall := inText_boundNamesAll hchild
      rw [boundNames.eq_def]
      dsimp only
      split
      · split <;> infer_instance
      iterate 4
        · split
          · exact hchild _ List.mem_cons_self
          · infer_instance
      · split
        · exact hchild _ (List.mem_cons_of_mem _ List.mem_cons_self)
        · infer_instance
      all_goals infer_instance

theorem inText_suspensionsAll {ns : List Node} (h : ∀ n ∈ ns, InText text n.suspensions) :
    InText text (suspensionsAll ns) := by
  induction ns with
  | nil =>
      rw [suspensionsAll]
      infer_instance
  | cons n ns ih =>
      obtain ⟨hn, hns⟩ := List.forall_mem_cons.mp h
      have := ih hns
      rw [suspensionsAll]
      infer_instance

/-- `yield` and `await` are found in the text, and the complaints about them are no objections. -/
theorem inText_suspensions {n : Node} : InText text n → InText text n.suspensions := by
  induction n using child_induction with
  | step n ih =>
      intro h
      obtain ⟨hn, hc⟩ := InText.node_iff.mp h
      obtain ⟨kind, payload, children, span, flags, doc, before, after⟩ := n
      have hs : InText text span := InText.span_iff.mpr hn.span
      have hall := inText_suspensionsAll fun m hm => ih m hm ⟨hc.located m hm⟩
      rw [suspensions.eq_def]
      dsimp only
      split <;> infer_instance

end Node

end EcmaScript
