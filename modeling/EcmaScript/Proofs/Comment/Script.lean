import EcmaScript.Proofs.Comment.Queue
import EcmaScript.Proofs.CommentPolicy
import EcmaScript.Proofs.Layout.Node
import EcmaScript.Proofs.Script.Root

/-!
# The walk over a script

The walk starts at the root of a script, with the comments of the script in the order of the text, and comes
to all nodes. What it leaves in the place of the root is the tree that a parse gives.

## Contents

* `Visit.ofScript`: the moment at which the walk begins.
* `exists_mem_ofScript`, `mem_ofScript`: the comments that wait then.
* `ascending_ofScript`: they are in the order of the text.
* `parse_root_ofScript`: the tree of the parse.
-/

namespace EcmaScript

namespace Node

theorem kind_eq_of_bare {n m : Node} (h : n.bare = m.bare) : n.kind = m.kind := by
  have hkind (n : Node) : n.bare.kind = n.kind := by
    cases n
    rw [bare]
  rw [← hkind n, h, hkind]

theorem span_eq_of_bare {n m : Node} (h : n.bare = m.bare) : n.span = m.span := by
  have hspan (n : Node) : n.bare.span = n.span := by
    cases n
    rw [bare]
  rw [← hspan n, h, hspan]

theorem outgrows_bare (n : Node) : n.bare.outgrows = n.outgrows := by
  cases n
  rw [bare]
  rfl

end Node

/-! ## Nodes with and without comments -/

namespace Attaching.Visits

variable {source : Array Char} {start v : Visit}

/-- What stands in the place of a node differs from it in the comments only. -/
theorem bare_out (hbare : start.out.bare = start.node.bare)
    (hstart : start.out.children = (start.result source).children) (h : Visits source start v) :
    v.out.bare = v.node.bare := by
  cases h with
  | start => exact hbare
  | step hv hstep =>
      have hlate : ((v.result source).withLate (v.late source)).bare = (v.result source).bare :=
        Node.bare_congr rfl rfl rfl rfl rfl
      rw [hstep.made (hv.children_out hstart), hlate]
      exact bare_node source v.place v.node v.state

/-- The walk comes to every child of a node in the tree with comments, and knows where it stands. -/
theorem exists_child (hstart : start.out.children = (start.result source).children) {n : Node}
    (hn : n ∈ start.out.preorder) {index : Nat} {child : Node} (hchild : n.children[index]? = some child) :
    ∃ v w, Visits source start v ∧ v.out = n ∧ v.Step source w ∧ w.out = child ∧
      w.place.index = index := by
  obtain ⟨v, hv, rfl⟩ := Visits.exists_out hstart start.out .start rfl n hn
  obtain ⟨w, hw⟩ := hv.child hstart hchild
  exact ⟨v, w, hv, rfl, hw⟩

/-- The nodes around a node stand around it in the tree with comments. -/
theorem exists_around (hbare : start.out.bare = start.node.bare) (habove : start.above = [])
    (hstart : start.out.children = (start.result source).children) (h : Visits source start v) :
    v.out ∈ start.out.preorder ∧ ∀ a ∈ v.above, ∃ m ∈ start.out.preorder, m.bare = a.bare ∧ v.out ∈ m.preorder := by
  induction h with
  | start =>
      rw [habove]
      exact ⟨start.out.self_mem_preorder, List.forall_mem_nil _⟩
  | step hv hstep ih =>
      obtain ⟨hmem, haround⟩ := ih
      obtain ⟨-, hout⟩ := hstep
      have hchild := List.mem_of_getElem? hout
      refine ⟨Node.mem_preorder_of_child hchild _ hmem, List.forall_mem_cons.mpr
        ⟨⟨_, hmem, hv.bare_out hbare hstart, ?_⟩, fun a ha => ?_⟩⟩
      · exact Node.mem_preorder_of_child hchild _ (Node.self_mem_preorder _)
      · obtain ⟨m, hm, he, hin⟩ := haround a ha
        exact ⟨m, hm, he, Node.mem_preorder_of_child hchild m hin⟩

end Attaching.Visits

/-! ## The beginning of the walk -/

namespace Attaching.Visit

/-- The moment at which the walk over the tree of a script begins. -/
def ofScript (source : String) (o : Options) (root : Node) (s : Script) : Visit :=
  ofTree root s.grammar.lexer.comments.toList source.toList o s.grammar.journal.sink

variable {name source : String} {o : Options} {root : Node} {s : Script} {p : PendingComment}

/-- The comments that wait are comments of the script, and those of documentation wait as such. -/
theorem mem_ofScript (hp : p ∈ (ofScript source o root s).state.queue) :
    p.comment ∈ s.grammar.lexer.comments.toList ∧ (p.comment.kind = .doc ↔ p.isPlain = false) := by
  have hholds : (Backlog.ofComments o.doc s.grammar.lexer.comments.toList s.grammar.journal.sink).1.Holds
      s.grammar.lexer.comments.toList := Backlog.holds_ofComments _ _
  exact ⟨hholds.sublist.subset (List.mem_map_of_mem hp), hholds.kind p (List.mem_reverse.mp hp)⟩

/-- All plain comments wait, if they are asked for. -/
theorem exists_mem_ofScript (ho : o.comments = .all) {c : Comment}
    (hc : c ∈ s.grammar.lexer.comments.toList) (hplain : c.isPlain = true) :
    ∃ p ∈ (ofScript source o root s).state.queue, p.isPlain = true ∧ p.comment = c := by
  have hdoc : o.doc.documentation = true := by
    unfold Options.doc
    rw [ho]
    rfl
  have hall : plain (ofScript source o root s).state.queue = _ :=
    Backlog.plain_foldl hdoc s.grammar.lexer.comments.toList {} s.grammar.journal.sink
  rw [← mem_plain, hall]
  exact List.mem_append_right _ (List.mem_filter.mpr ⟨hc, hplain⟩)

/-- **The comments of a script ascend.** -/
theorem ascending_ofScript
    (hroot : ((Script.ofText name source o).readAll source.length).root? = (some root, s)) :
    PendingComment.Ascending (ofScript source o root s).state.queue := by
  obtain ⟨tokens, htokens⟩ := Script.exists_readsTo_of_root hroot
  exact Backlog.ascending_ofComments (htokens.reads.ascending (Script.standing_ofText name source o)
    (Grammar.State.noted_ofText _ _ _) (Grammar.State.ascending_ofText _ _ _)) _

theorem children_ofScript (ho : o.comments ≠ .none) :
    (ofScript source o root s).out.children =
      ((ofScript source o root s).result source.toList.toArray).children := children_ofTree ho

theorem bare_ofScript : (ofScript source o root s).out.bare = (ofScript source o root s).node.bare :=
  root.bare_attachComments _ _ _ _

/-- The tree that the parse gives. -/
theorem parse_root_ofScript
    (hroot : ((Script.ofText name source o).readAll source.length).root? = (some root, s)) :
    ∀ tree ∈ (parse name source o).root, tree = (ofScript source o root s).out := by
  intro tree ht
  unfold parse at ht
  rw [hroot] at ht
  dsimp only at ht
  split at ht
  · cases ht
  · exact (Option.some.inj ht).symm

end Attaching.Visit

end EcmaScript
