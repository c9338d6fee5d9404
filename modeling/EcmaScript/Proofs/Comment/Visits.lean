import EcmaScript.Proofs.Comment.Walk

/-!
# The way of the walk

The walk comes to every node of the tree, each time with a state of its own. A `Visit` is one such moment,
together with the node that stands in its place in the tree with comments, and `Visit.Step` leads from a
node to its children. What holds of the root and is preserved by a step holds wherever the walk comes, which
is how the properties of single nodes are proved.

## Contents

* `Visit`, `Visit.Step`, `Visits`: the way of the walk.
* `Visit.entered`, `Visit.before`, `Visit.walked`, `Visit.final`: the states on the way.
* `Visit.Made`, `Visits.made`: what the walk makes of a node.
-/

namespace EcmaScript

/-- The node with the comments at the end of its block behind it. -/
def Node.withLate (n : Node) (comments : List PendingComment) : Node :=
  { n with trailing := comments.foldl Attaching.addBlockTrailing n.trailing }

theorem Node.withLate_nil (n : Node) : n.withLate [] = n := by
  cases n
  rfl

namespace Attaching

/-! ## Lists of nodes -/

section Lists

variable {source : Array Char} {place : NodePlace} {kind : NodeKind}

/-- The walk makes of the nodes of a list what it makes of each of them in turn. -/
theorem getElem?_nodes (ns : List Node) (offset index : Nat) (s : State) :
    (nodes source place kind offset ns s).1[index]? =
      ns[index]?.map fun n => (node source (place.child kind (offset + index)) n
        (nodes source place kind offset (ns.take index) s).2).1 := by
  induction ns generalizing offset index s with
  | nil =>
      rw [nodes]
      rfl
  | cons n rest ih =>
      rw [nodes]
      show ((node source _ n s).1 :: (nodes source place kind (offset + 1) rest _).1)[index]? = _
      cases index with
      | zero =>
          rw [List.take_zero, nodes]
          rfl
      | succ index =>
          rw [List.getElem?_cons_succ, ih, List.getElem?_cons_succ, List.take_succ_cons, nodes,
            Nat.add_right_comm, Nat.add_assoc]
          rfl

theorem length_nodes (ns : List Node) (offset : Nat) (s : State) :
    (nodes source place kind offset ns s).1.length = ns.length := by
  induction ns generalizing offset s with
  | nil =>
      rw [nodes]
      rfl
  | cons n rest ih =>
      rw [nodes]
      exact congrArg (· + 1) (ih (offset + 1) _)

/-- The walk over a list up to behind one of its nodes. -/
theorem nodes_take_succ {ns : List Node} {index : Nat} {n : Node} (h : ns[index]? = some n) (offset : Nat)
    (s : State) :
    (nodes source place kind offset (ns.take (index + 1)) s).2 =
      (node source (place.child kind (offset + index)) n
        (nodes source place kind offset (ns.take index) s).2).2 := by
  induction ns generalizing offset index s with
  | nil => cases h
  | cons m rest ih =>
      cases index with
      | zero =>
          cases h
          rw [List.take_zero, nodes, List.take_succ_cons, List.take_zero, nodes, nodes]
          rfl
      | succ index =>
          rw [List.take_succ_cons, nodes, List.take_succ_cons, nodes]
          show (nodes source place kind (offset + 1) (rest.take (index + 1)) _).2 = _
          rw [ih h, Nat.add_right_comm, Nat.add_assoc]
          rfl

theorem getElem?_attachToLast (ps : List PendingComment) (ns : List Node) (index : Nat) :
    (attachToLast ps ns)[index]? = ns[index]?.map fun n =>
      if index + 1 = ns.length then n.withLate ps else n := by
  fun_induction attachToLast ps ns generalizing index with
  | case1 => rfl
  | case2 n =>
      cases index with
      | zero => rfl
      | succ index => rfl
  | case3 n rest hne ih =>
      cases index with
      | zero =>
          have hlen : ¬0 + 1 = (n :: rest).length := fun h =>
            hne (List.length_eq_zero_iff.mp (Nat.succ.inj h).symm)
          simp only [List.getElem?_cons_zero, Option.map_some, if_neg hlen]
      | succ index =>
          rw [List.getElem?_cons_succ, List.getElem?_cons_succ, ih, List.length_cons]
          simp only [Nat.add_right_cancel_iff]

end Lists

/-! ## Visits -/

/-- A moment at which the walk comes to a node. -/
structure Visit where
  /-- The nodes around the node, nearest one first. -/
  above : List Node
  place : NodePlace
  node : Node
  /-- What the walk carries along. -/
  state : State
  /-- What stands in the place of the node when the walk is over. -/
  out : Node

namespace Visit

variable (source : Array Char) (v : Visit)

/-- What is carried along when the walk goes on to the children. -/
def entered : State :=
  if v.node.startsAfterChildren then v.state else (claim source v.node v.place v.state).2

/-- What is carried along to the child of an index. -/
def before (index : Nat) : State :=
  (nodes source v.place v.node.kind 0 (v.node.children.take index) (v.entered source)).2

/-- What is carried along behind the children. -/
def walked : State := (nodes source v.place v.node.kind 0 v.node.children (v.entered source)).2

/-- What is carried along when the node claims comments. -/
def claiming : State := if v.node.startsAfterChildren then v.walked source else v.state

/-- What is carried along when the walk leaves the node. -/
def leaving : State :=
  if v.node.startsAfterChildren then (claim source v.node v.place (v.walked source)).2
  else v.walked source

/-- What is carried along when the walk has left the node. -/
def final : State := (Attaching.node source v.place v.node v.state).2

/-- What the walk makes of the node. -/
def result : Node := (Attaching.node source v.place v.node v.state).1

/-- The comments that the end of the block around the node attaches to it. -/
def late : List PendingComment :=
  match v.above with
  | block :: _ =>
    if block.kind = .block ∧ v.place.index + 1 = block.children.length then
      ((v.final source).queue.takeWhile fun p => p.stop ≤ block.span.stop).filter (·.isPlain)
    else []
  | [] => []

/-- From a node to one of its children. -/
inductive Step : Visit → Visit → Prop where
  | child {v : Visit} {index : Nat} {child out : Node} :
    v.node.children[index]? = some child → v.out.children[index]? = some out →
    Step v ⟨v.node :: v.above, v.place.child v.node.kind index, child, v.before source index, out⟩

end Visit

/-- The visit of the child of an index. -/
def Visit.below (source : Array Char) (v : Visit) (index : Nat) (hchild : index < v.node.children.length)
    (hout : index < v.out.children.length) : Visit :=
  ⟨v.node :: v.above, v.place.child v.node.kind index, v.node.children[index], v.before source index,
    v.out.children[index]⟩

theorem Visit.step_below (source : Array Char) (v : Visit) (index : Nat)
    (hchild : index < v.node.children.length) (hout : index < v.out.children.length) :
    v.Step source (v.below source index hchild hout) :=
  .child (List.getElem?_eq_getElem hchild) (List.getElem?_eq_getElem hout)

/-- Where the walk comes to. -/
inductive Visits (source : Array Char) (start : Visit) : Visit → Prop where
  | start : Visits source start start
  | step {v w : Visit} : Visits source start v → v.Step source w → Visits source start w

/-! ## What the walk makes of a node -/

namespace Visit

variable {source : Array Char} {v w : Visit}

/-- A visit is claims, children and leaving in one order or the other. -/
theorem node_eq (v : Visit) :
    Attaching.node source v.place v.node v.state =
      let claimed := (claim source v.node v.place (v.claiming source)).1
      let below := (nodes source v.place v.node.kind 0 v.node.children (v.entered source)).1
      let left := leave source v.place v.node.kind v.node.span.stop below (v.leaving source)
      ({ v.node with
        children := left.1.1, doc := claimed.doc, leading := claimed.leading.map (·.attached)
        trailing := left.1.2.map (·.attached) }, left.2) := by
  rw [Attaching.node_eq]
  unfold claiming leaving walked entered
  split <;> rfl

/-- The children are those that the walk makes of the children, and the last one in a block has got further
comments. -/
theorem children_result (v : Visit) :
    (v.result source).children =
      let below := (nodes source v.place v.node.kind 0 v.node.children (v.entered source)).1
      if v.node.kind = .block then
        attachToLast (((v.walked source).queue.takeWhile fun p => p.stop ≤ v.node.span.stop).filter
          (·.isPlain)) below
      else below := by
  unfold result
  rw [v.node_eq]
  show (leave source v.place v.node.kind v.node.span.stop _ (v.leaving source)).1.1 = _
  rw [leave_eq]
  show (settleBlock v.node.kind v.node.span.stop _ (v.leaving source)).1 = _
  unfold settleBlock
  by_cases hk : v.node.kind = .block
  · have hlate : v.node.startsAfterChildren = false := by
      unfold Node.startsAfterChildren
      rw [hk]
      rfl
    have hleaving : v.leaving source = v.walked source := if_neg (Bool.eq_false_iff.mp hlate)
    rw [if_pos (beq_iff_eq.mpr hk), hleaving]
    dsimp only
    rw [if_pos hk]
    unfold leaveBlock
    split
    next hnil =>
      rw [List.isEmpty_iff.mp hnil]
      rfl
    next => rfl
  · rw [if_neg (mt beq_iff_eq.mp hk)]
    dsimp only
    rw [if_neg hk]
    rfl

/-- What stands in the place of the node is what the walk made of it, up to further comments behind it. -/
def Made (source : Array Char) (v : Visit) : Prop :=
  v.out = (v.result source).withLate (v.late source)

/-- A step leads to a child that the walk has made, if the children of the node are those that it has made. -/
theorem Step.made (h : v.Step source w) (hv : v.out.children = (v.result source).children) :
    w.Made source := by
  obtain ⟨hchild, hout⟩ := h
  rename_i index child out
  rw [hv, children_result] at hout
  let w : Visit := ⟨v.node :: v.above, v.place.child v.node.kind index, child, v.before source index, out⟩
  have hbelow : (nodes source v.place v.node.kind 0 v.node.children (v.entered source)).1[index]? =
      some (w.result source) := by
    rw [getElem?_nodes, hchild, Nat.zero_add]
    rfl
  have hmade : some out = some ((w.result source).withLate (w.late source)) := by
    rw [← hout]
    unfold late
    split
    next hk =>
      rw [getElem?_attachToLast, hbelow, length_nodes]
      dsimp only [w]
      by_cases hlast : index + 1 = v.node.children.length
      · -- behind the last child all children have been walked
        have hfinal : w.final source = v.walked source := by
          have hstep : (nodes source v.place v.node.kind 0 (v.node.children.take (index + 1))
              (v.entered source)).2 = _ := nodes_take_succ hchild 0 (v.entered source)
          rw [hlast, List.take_length, Nat.zero_add] at hstep
          exact hstep.symm
        rw [Option.map_some, if_pos hlast, if_pos ⟨hk, hlast⟩, hfinal]
      · rw [Option.map_some, if_neg hlast, if_neg fun h => hlast h.2, Node.withLate_nil]
    next hk =>
      rw [hbelow]
      dsimp only [w]
      rw [if_neg fun h => hk h.1, Node.withLate_nil]
  exact Option.some.inj hmade

end Visit

/-- **What the walk makes of a node stands in its place**, with the children that the walk has made, all over
the tree. -/
theorem Visits.children_out {source : Array Char} {start v : Visit}
    (hstart : start.out.children = (start.result source).children) (h : Visits source start v) :
    v.out.children = (v.result source).children := by
  induction h with
  | start => exact hstart
  | step _ hstep ih =>
      rw [hstep.made ih]
      rfl

/-! ## The walk comes everywhere -/

section Everywhere

variable {source : Array Char} {start v : Visit}

theorem length_attachToLast (comments : List PendingComment) (ns : List Node) :
    (attachToLast comments ns).length = ns.length := by
  rw [← List.length_map, spans_attachToLast, List.length_map]

theorem Visit.length_result (v : Visit) :
    (v.result source).children.length = v.node.children.length := by
  rw [v.children_result]
  dsimp only
  split
  · rw [length_attachToLast, length_nodes]
  · rw [length_nodes]

theorem Visits.length_out (hstart : start.out.children = (start.result source).children)
    (h : Visits source start v) : v.out.children.length = v.node.children.length := by
  rw [h.children_out hstart, v.length_result]

/-- The walk comes to every child of a node to which it comes. -/
theorem Visits.child (hstart : start.out.children = (start.result source).children)
    (h : Visits source start v) {index : Nat} {n : Node} (hn : v.out.children[index]? = some n) :
    ∃ w, v.Step source w ∧ w.out = n ∧ w.place.index = index := by
  have hindex : index < v.node.children.length :=
    h.length_out hstart ▸ (List.getElem?_eq_some_iff.mp hn).1
  exact ⟨_, .child (List.getElem?_eq_getElem hindex) hn, rfl, rfl⟩

mutual

/-- **The walk comes to every node** of the tree. -/
theorem Visits.exists_out (hstart : start.out.children = (start.result source).children) :
    (n : Node) → {v : Visit} → Visits source start v → v.out = n →
      ∀ m ∈ n.preorder, ∃ w, Visits source start w ∧ w.out = m
  | ⟨kind, payload, children, span, flags, doc, leading, trailing⟩, v, h, hv => by
      intro m hm
      rw [Node.preorder] at hm
      obtain rfl | hm := List.mem_cons.mp hm
      · exact ⟨v, h, hv⟩
      · refine Visits.exists_outAll hstart children 0 h (fun i n hn => ?_) m hm
        rw [hv, Nat.zero_add]
        exact hn

theorem Visits.exists_outAll (hstart : start.out.children = (start.result source).children) :
    (ns : List Node) → (offset : Nat) → {v : Visit} → Visits source start v →
      (∀ i n, ns[i]? = some n → v.out.children[offset + i]? = some n) →
      ∀ m ∈ Node.preorderAll ns, ∃ w, Visits source start w ∧ w.out = m
  | [], _, _, _, _ => nofun
  | n :: rest, offset, v, h, hns => by
      intro m hm
      rw [Node.preorderAll] at hm
      obtain hm | hm := List.mem_append.mp hm
      · obtain ⟨w, hstep, hw, -⟩ := h.child hstart (hns 0 n rfl)
        exact Visits.exists_out hstart n (h.step hstep) hw m hm
      · refine Visits.exists_outAll hstart rest (offset + 1) h (fun i k hk => ?_) m hm
        rw [Nat.add_right_comm]
        exact hns (i + 1) k hk

end

end Everywhere

/-! ## A tree with comments -/

namespace Visit

variable (root : Node) (comments : List Comment) (source : List Char) (options : Options) (sink : Sink)

/-- The moment at which the walk over a whole tree begins. -/
def ofTree : Visit :=
  let backlog := Backlog.ofComments options.doc comments sink
  { above := [], place := {}, node := root, state := ⟨backlog.1.reversed.reverse, backlog.2⟩
    out := (root.attachComments comments source options sink).1 }

variable {root comments source options sink}

theorem children_ofTree (ho : options.comments ≠ .none) :
    (ofTree root comments source options sink).out.children =
      ((ofTree root comments source options sink).result source.toArray).children := by
  unfold ofTree Node.attachComments
  rw [if_neg (by simpa using ho)]
  rfl

end Visit

end Attaching

end EcmaScript
