import EcmaScript.Comment.Attach

/-!
# The walk that attaches comments

What the walk does at a node, as a chain of steps: behind the children come the comments that a block, a
script, a statement and a line leave to it (`leave_eq`), before or behind the children those before it
(`node_eq`). All of these leave the nodes where they are.

## Contents

* `leave_eq`, `sameLine_cons`, `node_eq`: the chains of steps, and the step that looks at the queue.
* `node_late`, `node_early`, `nodes_cons`: what a chain gives, with the states between its steps.
* `span_node`, `spans_leave`: the regions of the nodes behind the walk.
-/

namespace EcmaScript

namespace Attaching

/-! ## The steps behind a node, in turn -/

/-- The children with what the end of a block attaches to the last one. -/
def settleBlock (kind : NodeKind) (stop : Nat) (children : List Node) : Attaching (List Node) :=
  if kind == .block then leaveBlock stop children else pure children

/-- What the end of a script leaves to the root. -/
def settleScript (kind : NodeKind) : Attaching (Option CommentRun) :=
  if kind == .script then leaveScript else pure none

/-- What the end of a statement leaves to it. -/
def settleStatement (isStatement : Bool) (stop : Nat) (run : Option CommentRun) :
    Attaching (Option CommentRun) :=
  if isStatement then leaveStatement stop run else pure run

/-- What follows a statement or an item of a list on its line. -/
def settleLine (source : Array Char) (ends : Bool) (stop : Nat) (run : Option CommentRun) :
    Attaching (Option CommentRun) :=
  if ends then sameLine source stop run else pure run

theorem leave_eq (source : Array Char) (place : NodePlace) (kind : NodeKind) (stop : Nat)
    (children : List Node) :
    leave source place kind stop children = (do
      let children ← settleBlock kind stop children
      let run ← settleScript kind
      let run ← settleStatement (place.isStatement kind) stop run
      let _ ← takeWhile fun p => !p.isPlain && p.stop ≤ stop
      let run ← settleLine source (place.isStatement kind || place.isListItem) stop run
      return (children, run)) := by
  unfold leave settleBlock settleScript settleStatement settleLine
  cases kind == .block <;> cases kind == .script <;> cases place.isStatement kind <;>
    cases place.isListItem <;> rfl

/-- The comment at the front of the queue is taken if it stands behind the node on its line. -/
theorem sameLine_cons (source : Array Char) (stop : Nat) (run : Option CommentRun) (p : PendingComment)
    (rest : List PendingComment) (sink : Sink) :
    sameLine source stop run ⟨p :: rest, sink⟩ =
      if p.isPlain && stop ≤ p.comment.span.offset && onlySeparators source stop p.comment.span.offset then
        (addTrailing true run p, ⟨rest, sink⟩)
      else (run, ⟨p :: rest, sink⟩) := by
  have step : sameLine source stop run ⟨p :: rest, sink⟩ =
      (if p.isPlain && stop ≤ p.comment.span.offset && onlySeparators source stop p.comment.span.offset then do
        modify ({ · with queue := rest })
        return addTrailing true run p
      else return run : Attaching (Option CommentRun)) ⟨p :: rest, sink⟩ := rfl
  rw [step]
  split <;> rfl

/-! ## The walk -/

/-- A node claims comments before its children or behind them. -/
theorem node_eq (source : Array Char) (place : NodePlace) (n : Node) :
    node source place n =
      if n.startsAfterChildren then do
        let below ← nodes source place n.kind 0 n.children
        let claimed ← claim source n place
        let (below, behind) ← leave source place n.kind n.span.stop below
        return { n with
          children := below, doc := claimed.doc, leading := claimed.leading.map (·.attached)
          trailing := behind.map (·.attached) }
      else do
        let claimed ← claim source n place
        let below ← nodes source place n.kind 0 n.children
        let (below, behind) ← leave source place n.kind n.span.stop below
        return { n with
          children := below, doc := claimed.doc, leading := claimed.leading.map (·.attached)
          trailing := behind.map (·.attached) } := by
  cases n
  rw [node]
  dsimp only
  split <;> rfl

/-- What becomes of a node that claims comments when it is left, and the state behind it. -/
theorem node_late (source : Array Char) (place : NodePlace) {n : Node} (h : n.startsAfterChildren = true) (s : State) :
    node source place n s =
      let below := nodes source place n.kind 0 n.children s
      let claimed := claim source n place below.2
      let left := leave source place n.kind n.span.stop below.1 claimed.2
      ({ n with
        children := left.1.1, doc := claimed.1.doc, leading := claimed.1.leading.map (·.attached)
        trailing := left.1.2.map (·.attached) }, left.2) := by
  rw [node_eq, if_pos h]
  rfl

/-- What becomes of a node that claims comments when it is entered, and the state behind it. -/
theorem node_early (source : Array Char) (place : NodePlace) {n : Node} (h : n.startsAfterChildren = false)
    (s : State) :
    node source place n s =
      let claimed := claim source n place s
      let below := nodes source place n.kind 0 n.children claimed.2
      let left := leave source place n.kind n.span.stop below.1 below.2
      ({ n with
        children := left.1.1, doc := claimed.1.doc, leading := claimed.1.leading.map (·.attached)
        trailing := left.1.2.map (·.attached) }, left.2) := by
  rw [node_eq, if_neg (by simp [h])]
  rfl

/-- The walk goes on from each node of a list to the next one. -/
theorem nodes_cons (source : Array Char) (place : NodePlace) (kind : NodeKind) (index : Nat) (n : Node)
    (rest : List Node) (s : State) :
    nodes source place kind index (n :: rest) s =
      ((node source (place.child kind index) n s).1 ::
          (nodes source place kind (index + 1) rest (node source (place.child kind index) n s).2).1,
        (nodes source place kind (index + 1) rest (node source (place.child kind index) n s).2).2) := by
  rw [nodes]
  rfl

/-! ## The nodes stay where they are -/

theorem spans_attachToLast (comments : List PendingComment) (ns : List Node) :
    (attachToLast comments ns).map (·.span) = ns.map (·.span) := by
  fun_induction attachToLast comments ns with
  | case1 => rfl
  | case2 n => rfl
  | case3 n rest _ ih => rw [List.map_cons, List.map_cons, ih]

theorem spans_settleBlock (kind : NodeKind) (stop : Nat) (children : List Node) (s : State) :
    (settleBlock kind stop children s).1.map (·.span) = children.map (·.span) := by
  unfold settleBlock leaveBlock
  split
  · split
    · rfl
    · exact spans_attachToLast _ children
  · rfl

theorem spans_leave (source : Array Char) (place : NodePlace) (kind : NodeKind) (stop : Nat)
    (children : List Node) (s : State) :
    (leave source place kind stop children s).1.1.map (·.span) = children.map (·.span) := by
  rw [leave_eq]
  exact spans_settleBlock kind stop children s

theorem span_node (source : Array Char) (place : NodePlace) (n : Node) (s : State) :
    (node source place n s).1.span = n.span := by
  rw [node_eq]
  split <;> rfl

theorem spans_nodes (source : Array Char) (place : NodePlace) (kind : NodeKind) (index : Nat)
    (ns : List Node) (s : State) :
    (nodes source place kind index ns s).1.map (·.span) = ns.map (·.span) := by
  induction ns generalizing index s with
  | nil =>
      rw [nodes]
      rfl
  | cons n rest ih =>
      rw [nodes_cons, List.map_cons, List.map_cons, span_node, ih]

end Attaching

end EcmaScript
