import EcmaScript.Node.Basic
import Mathlib.Data.List.Lex

/-!
# The order of a traversal

Two nodes of a tree may be equal, so that a traversal which says only what the nodes are does not say where
it is. A `Ref` names a node by the way to it, and `Node.refs` lists the references to all nodes of a tree, a
node before its children and these from left to right. The list is what a dictionary of the ways would be
(`pairwise_refs`, `mem_refs`): each node is in it once, under its own way.

The loops that go through a tree keep a stack. Each of them takes a node from the top and puts its children
there instead, the last one first, so that what is still to come is, at any time, what lies below the nodes on
the stack (`stack_induction`).

## Contents

* `Ref`, `Node.refs`: the nodes of a tree in pre-order, with the ways to them.
* `pushed`: items that are put on a stack one after the other.
* `Iteration`, `Iteration.toList`: an iterator over a tree.
* `Node.listing`: the tree as lines that are written to a buffer.
* `Node.outline_eq`, `Node.descendants_eq`, `Node.render_eq`: the traversals with one stack of nodes.
-/

namespace EcmaScript

/-! ## References -/

/-- A node of a tree, seen from outside: the way to it from the root, by the number of siblings before each node
on the way, and what stands there. -/
structure Ref where
  path : List Nat
  node : Node

/-- References to nodes with one parent, which is at the path, behind `index` others. -/
def Ref.siblings (path : List Nat) (index : Nat) (ns : List Node) : List Ref :=
  (ns.zipIdx index).map fun (n, i) => ⟨path ++ [i], n⟩

/-- The children from left to right. -/
def Ref.children (r : Ref) : List Ref := siblings r.path 0 r.node.children

theorem Ref.siblings_cons (path : List Nat) (index : Nat) (n : Node) (ns : List Node) :
    siblings path index (n :: ns) = ⟨path ++ [index], n⟩ :: siblings path (index + 1) ns := rfl

namespace Node

mutual

/-- References to the node, which is at the path, and to all below it: a node comes before its children, and
these from left to right. -/
def refsAt (path : List Nat) : Node → List Ref
  | ⟨kind, payload, children, span, flags, doc, leading, trailing⟩ =>
    ⟨path, ⟨kind, payload, children, span, flags, doc, leading, trailing⟩⟩ :: refsAmong path 0 children

def refsAmong (path : List Nat) (index : Nat) : List Node → List Ref
  | [] => []
  | n :: rest => refsAt (path ++ [index]) n ++ refsAmong path (index + 1) rest

end

/-- References to all nodes of a tree in pre-order. -/
def refs (n : Node) : List Ref := n.refsAt []

theorem refsAt_eq (path : List Nat) (n : Node) :
    n.refsAt path = ⟨path, n⟩ :: refsAmong path 0 n.children := by
  cases n
  rw [refsAt]

end Node

/-- The node and all below it. -/
def Ref.below (r : Ref) : List Ref := r.node.refsAt r.path

theorem Ref.flatMap_below_siblings (path : List Nat) (index : Nat) (ns : List Node) :
    (siblings path index ns).flatMap below = Node.refsAmong path index ns := by
  induction ns generalizing index with
  | nil => simp [siblings, Node.refsAmong]
  | cons n ns ih => rw [siblings_cons, List.flatMap_cons, ih, Node.refsAmong, below]

/-- A node comes before what lies below its children. -/
theorem Ref.below_eq (r : Ref) : r.below = r :: r.children.flatMap below := by
  rw [children, flatMap_below_siblings]
  exact r.node.refsAt_eq r.path

namespace Node

/-! ## All nodes, each of them once -/

mutual

theorem nodes_refsAt (path : List Nat) : (n : Node) → (n.refsAt path).map (·.node) = n.preorder
  | ⟨kind, payload, children, span, flags, doc, leading, trailing⟩ => by
      rw [refsAt, preorder, List.map_cons, nodes_refsAmong path 0 children]

theorem nodes_refsAmong (path : List Nat) (index : Nat) :
    (ns : List Node) → (refsAmong path index ns).map (·.node) = preorderAll ns
  | [] => by rw [refsAmong, preorderAll, List.map_nil]
  | n :: rest => by
      rw [refsAmong, preorderAll, List.map_append, nodes_refsAt (path ++ [index]) n,
        nodes_refsAmong path (index + 1) rest]

end

mutual

theorem length_refsAt (path : List Nat) : (n : Node) → (n.refsAt path).length = n.size
  | ⟨kind, payload, children, span, flags, doc, leading, trailing⟩ => by
      rw [refsAt, size, List.length_cons, length_refsAmong path 0 children]

theorem length_refsAmong (path : List Nat) (index : Nat) :
    (ns : List Node) → (refsAmong path index ns).length = sizeAll ns
  | [] => by rw [refsAmong, sizeAll, List.length_nil]
  | n :: rest => by
      rw [refsAmong, sizeAll, List.length_append, length_refsAt (path ++ [index]) n,
        length_refsAmong path (index + 1) rest]

end

mutual

/-- **What a reference points to** is found on its way. -/
theorem mem_refsAt {path : List Nat} {r : Ref} :
    (n : Node) → (r ∈ n.refsAt path ↔ ∃ way, r.path = path ++ way ∧ n.descend? way = some r.node)
  | ⟨kind, payload, children, span, flags, doc, leading, trailing⟩ => by
      rw [refsAt, List.mem_cons, mem_refsAmong children]
      constructor
      · rintro (rfl | ⟨i, way, child, hchild, hpath, hway⟩)
        · exact ⟨[], (List.append_nil path).symm, rfl⟩
        · exact ⟨i :: way, by rw [hpath, Nat.zero_add], by simp [descend?, hchild, hway]⟩
      · rintro ⟨way, hpath, hway⟩
        cases way with
        | nil =>
            left
            obtain ⟨rpath, rnode⟩ := r
            rw [List.append_nil] at hpath
            cases hpath
            cases hway
            rfl
        | cons i way =>
            right
            rw [descend?] at hway
            cases hchild : children[i]? with
            | none => simp [hchild] at hway
            | some child =>
                simp only [hchild] at hway
                exact ⟨i, way, child, hchild, by rw [hpath, Nat.zero_add], hway⟩

theorem mem_refsAmong {path : List Nat} {index : Nat} {r : Ref} :
    (ns : List Node) → (r ∈ refsAmong path index ns ↔
      ∃ i way child, ns[i]? = some child ∧ r.path = path ++ (index + i) :: way ∧
        child.descend? way = some r.node)
  | [] => by simp [refsAmong]
  | n :: rest => by
      rw [refsAmong, List.mem_append, mem_refsAt n, mem_refsAmong rest]
      constructor
      · rintro (⟨way, hpath, hway⟩ | ⟨i, way, child, hchild, hpath, hway⟩)
        · exact ⟨0, way, n, rfl, by simpa using hpath, hway⟩
        · exact ⟨i + 1, way, child, hchild, by rw [hpath, Nat.add_assoc, Nat.add_comm 1], hway⟩
      · rintro ⟨i, way, child, hchild, hpath, hway⟩
        cases i with
        | zero =>
            cases hchild
            exact .inl ⟨way, by simpa using hpath, hway⟩
        | succ i =>
            exact .inr ⟨i, way, child, hchild, by rw [hpath, Nat.add_assoc, Nat.add_comm 1], hway⟩

end

/-- The references of a tree are the ways that lead to a node of it. -/
theorem mem_refs {root : Node} {r : Ref} : r ∈ root.refs ↔ root.descend? r.path = some r.node := by
  rw [refs, mem_refsAt]
  simp

/-! ## In the order of their ways -/

mutual

/-- **The references stand in the order of their ways**, as words of a dictionary do. -/
theorem pairwise_refsAt (path : List Nat) :
    (n : Node) → (n.refsAt path).Pairwise fun r s => List.Lex (· < ·) r.path s.path
  | ⟨kind, payload, children, span, flags, doc, leading, trailing⟩ => by
      rw [refsAt, List.pairwise_cons]
      refine ⟨?_, pairwise_refsAmong path 0 children⟩
      intro r hr
      obtain ⟨i, way, -, -, hpath, -⟩ := (mem_refsAmong children).mp hr
      rw [hpath]
      simpa using List.Lex.append_left (· < ·) (List.Lex.nil (a := 0 + i) (l := way)) path

theorem pairwise_refsAmong (path : List Nat) (index : Nat) :
    (ns : List Node) → (refsAmong path index ns).Pairwise fun r s => List.Lex (· < ·) r.path s.path
  | [] => by
      rw [refsAmong]
      exact .nil
  | n :: rest => by
      rw [refsAmong, List.pairwise_append]
      refine ⟨pairwise_refsAt _ n, pairwise_refsAmong path (index + 1) rest, ?_⟩
      intro r hr s hs
      obtain ⟨way, hr, -⟩ := (mem_refsAt n).mp hr
      obtain ⟨i, way', -, -, hs, -⟩ := (mem_refsAmong rest).mp hs
      rw [hr, hs, List.append_assoc]
      apply List.Lex.append_left
      apply List.Lex.rel
      omega

end

theorem pairwise_refs (root : Node) : root.refs.Pairwise fun r s => List.Lex (· < ·) r.path s.path :=
  root.pairwise_refsAt []

end Node

/-! ## Stacks -/

/-- Items that are put on a stack one after the other. The top of a stack is its head. -/
def pushed {α : Type} (items stack : List α) : List α := items.foldl (fun s x => x :: s) stack

/-- What was put on the stack last is taken first. -/
@[simp] theorem pushed_reverse {α : Type} (items stack : List α) :
    pushed items.reverse stack = items ++ stack := by
  simp [pushed]

theorem Node.size_pos (n : Node) : 0 < n.size := by
  rw [size_eq]
  exact Nat.succ_pos _

/-- The number of nodes on a stack and below. -/
def Ref.total (stack : List Ref) : Nat := Node.sizeAll (stack.map (·.node))

theorem Ref.node_siblings (path : List Nat) (index : Nat) (ns : List Node) :
    (siblings path index ns).map (·.node) = ns := by
  simp [siblings, Function.comp_def]

theorem Ref.total_children_lt (r : Ref) (rest : List Ref) :
    total (r.children ++ rest) < total (r :: rest) := by
  simp [total, children, Node.sizeAll, Node.sizeAll_append, Node.size_eq, node_siblings]

/-- **Loops over a stack.** What holds of the empty stack, and of a stack if it holds when the children of the top
are there instead of it, holds of every stack. -/
theorem Ref.stack_induction {motive : List Ref → Prop} (nil : motive [])
    (cons : ∀ r rest, motive (r.children ++ rest) → motive (r :: rest)) (stack : List Ref) : motive stack :=
  match stack with
  | [] => nil
  | r :: rest => cons r rest (stack_induction nil cons (r.children ++ rest))
termination_by total stack
decreasing_by exact total_children_lt r rest

/-! ## Iterating -/

/-- An iterator over a tree, by what it has still to visit. -/
structure Iteration where
  stack : List Ref

namespace Iteration

/-- The beginning of an iteration. -/
def ofRoot (root : Node) : Iteration := ⟨[⟨[], root⟩]⟩

/-- The next node: the top of the stack, on which its children are put, the last one first. -/
def next? (i : Iteration) : Option (Ref × Iteration) :=
  match i.stack with
  | [] => none
  | r :: rest => some (r, ⟨pushed r.children.reverse rest⟩)

theorem total_next?_lt {i j : Iteration} {r : Ref} (h : i.next? = some (r, j)) :
    Ref.total j.stack < Ref.total i.stack := by
  obtain ⟨stack⟩ := i
  cases stack with
  | nil => cases h
  | cons _ rest =>
      cases h
      rw [pushed_reverse]
      exact r.total_children_lt rest

/-- All that is still to come. -/
def toList (i : Iteration) : List Ref :=
  match _ : i.next? with
  | none => []
  | some (r, rest) => r :: rest.toList
termination_by Ref.total i.stack
decreasing_by exact total_next?_lt ‹_›

/-- **An iterator gives what lies below its stack**, in pre-order. -/
theorem toList_eq (stack : List Ref) : (Iteration.mk stack).toList = stack.flatMap Ref.below := by
  induction stack using Ref.stack_induction with
  | nil =>
      rw [toList]
      rfl
  | cons r rest ih =>
      rw [toList]
      simp only [next?, pushed_reverse]
      rw [ih, List.flatMap_append, List.flatMap_cons, Ref.below_eq]
      rfl

theorem toList_ofRoot (root : Node) : (ofRoot root).toList = root.refs := by
  rw [ofRoot, toList_eq, List.flatMap_cons, List.flatMap_nil, List.append_nil]
  rfl

end Iteration

namespace Node

/-! ## Listing -/

/-- Writes the nodes on a stack, each with its depth, and all below them to a buffer. -/
def listingFrom (stack : List (Nat × Ref)) (buffer : String) : String :=
  match stack with
  | [] => buffer
  | (depth, r) :: rest =>
    listingFrom (pushed (r.children.map (depth + 1, ·)).reverse rest) (buffer ++ r.node.line depth)
termination_by Ref.total (stack.map (·.2))
decreasing_by
  rw [pushed_reverse, List.map_append, List.map_map, List.map_cons]
  simpa [Function.comp_def] using Ref.total_children_lt r (rest.map (·.2))

/-- The tree as lines that are written to a buffer. -/
def listing (root : Node) : String := listingFrom [(0, ⟨[], root⟩)] ""

end Node

namespace Ref

/-- The line of a node, whose depth is the length of the way to it. -/
def line (r : Ref) : String := r.node.line r.path.length

/-- A stack of nodes with their depths. -/
def withDepths (stack : List Ref) : List (Nat × Ref) := stack.map fun r => (r.path.length, r)

/-- Children are one level below their parent. -/
theorem withDepths_children (r : Ref) (rest : List Ref) :
    r.children.map (r.path.length + 1, ·) ++ withDepths rest = withDepths (r.children ++ rest) := by
  simp [withDepths, children, siblings]

/-- The node with its depth. -/
def atDepth (r : Ref) : Nat × Node := (r.path.length, r.node)

theorem atDepth_children (r : Ref) :
    Node.atDepth (r.path.length + 1) r.node.children = r.children.map atDepth := by
  have hnodes : r.children.map (·.node) = r.node.children := node_siblings r.path 0 r.node.children
  rw [Node.atDepth, ← hnodes]
  simp [atDepth, children, siblings]

end Ref

namespace Node

theorem listingFrom_eq (stack : List Ref) (buffer : String) :
    listingFrom (Ref.withDepths stack) buffer = buffer ++ String.join ((stack.flatMap Ref.below).map Ref.line) := by
  induction stack using Ref.stack_induction generalizing buffer with
  | nil => simp [Ref.withDepths, listingFrom]
  | cons r rest ih =>
      rw [Ref.withDepths, List.map_cons, listingFrom, pushed_reverse]
      show listingFrom (_ ++ Ref.withDepths rest) (buffer ++ r.line) = _
      rw [Ref.withDepths_children, ih, List.flatMap_append, List.flatMap_cons, Ref.below_eq, List.cons_append,
        List.map_cons, String.join_cons, String.append_assoc]

/-- **The listing has a line for each node**, in pre-order. -/
theorem listing_eq (root : Node) : root.listing = String.join (root.refs.map Ref.line) := by
  show listingFrom (Ref.withDepths [⟨[], root⟩]) "" = _
  rw [listingFrom_eq, List.flatMap_cons, List.flatMap_nil, List.append_nil, String.empty_append]
  rfl

/-! ## One stack for all of them -/

theorem outlineFrom_eq (stack : List Ref) (found : Array (Nat × Node)) :
    outlineFrom (stack.map Ref.atDepth) found = found ++ ((stack.flatMap Ref.below).map Ref.atDepth).toArray := by
  induction stack using Ref.stack_induction generalizing found with
  | nil => simp [outlineFrom]
  | cons r rest ih =>
      rw [List.map_cons, Ref.atDepth, outlineFrom, Ref.atDepth_children, ← List.map_append, ih, List.flatMap_append,
        List.flatMap_cons, Ref.below_eq]
      simp [Ref.atDepth]

theorem outline_eq (root : Node) : root.outline = root.refs.map Ref.atDepth := by
  show (outlineFrom ([⟨[], root⟩].map Ref.atDepth) #[]).toList = _
  rw [outlineFrom_eq]
  simp [refs, Ref.below]

/-- **The descendants of a node** are the nodes in pre-order. -/
theorem descendants_eq (root : Node) : root.descendants = root.refs.map (·.node) := by
  rw [descendants, outline_eq, List.map_map]
  rfl

/-- **A tree is rendered** as a line for each node, in pre-order. -/
theorem render_eq (root : Node) : root.render = String.join (root.refs.map Ref.line) := by
  rw [render, outline_eq, List.map_map]
  rfl

/-- The listing is what the tree is rendered as. -/
theorem render_eq_listing (root : Node) : root.render = root.listing := by
  rw [render_eq, listing_eq]

end Node

end EcmaScript
