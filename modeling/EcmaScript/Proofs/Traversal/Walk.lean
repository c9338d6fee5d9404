import EcmaScript.Comment.Attach
import EcmaScript.Proofs.Traversal.Order

/-!
# A walk that enters and leaves nodes

The walk that attaches comments keeps a stack of events. When it enters a node, it puts there that the node is to be
left, and above that its children. A counter gives each node a number when it is entered, and a second stack holds the
numbers of the nodes that were entered and not yet left.

What is done at an event is a parameter of the walk. The events by themselves come in the order of a recursion
(`walk_eq`): each node is entered once, with its number in pre-order (`entered_callsAt`), it is left once with the same
number (`left_callsAt`), and then nothing comes that is about the node or about anything below it (`pairwise_callsAt`).

## Contents

* `Attaching.walk`: the loop over a stack of events.
* `Attaching.calls`: what a walk calls for, by recursion over the tree.
* `Attaching.logged`: what it calls for, as it does so.
* `Call.Precedes`: no call is about a node that was left before.
-/

namespace EcmaScript

namespace Attaching

/-- What a walk has still to do. -/
inductive Event where
  | enter (r : Ref) (place : NodePlace)
  | exit (r : Ref) (place : NodePlace) (index : Nat)

/-- What a walk calls for: that a node is entered, with its number and that of its parent, or left again. -/
inductive Call where
  | enter (r : Ref) (place : NodePlace) (index : Nat) (parent : Option Nat)
  | exit (r : Ref) (place : NodePlace) (index : Nat)

/-- The nodes with one parent, which is at the path, behind `before` others, are to be entered. -/
def entries (place : NodePlace) (kind : NodeKind) (path : List Nat) (before : Nat) (ns : List Node) : List Event :=
  (ns.zipIdx before).map fun (n, i) => .enter ⟨path ++ [i], n⟩ (place.child kind i)

theorem entries_cons (place : NodePlace) (kind : NodeKind) (path : List Nat) (before : Nat) (n : Node)
    (ns : List Node) : entries place kind path before (n :: ns) =
      .enter ⟨path ++ [before], n⟩ (place.child kind before) :: entries place kind path (before + 1) ns := rfl

/-- The number of steps that a walk takes for an event. -/
def Event.weight : Event → Nat
  | enter r _ => 2 * r.node.size
  | exit .. => 1

/-- The number of steps that a walk takes for the events on a stack. -/
def Event.total : List Event → Nat
  | [] => 0
  | e :: rest => e.weight + total rest

theorem total_entries (place : NodePlace) (kind : NodeKind) (path : List Nat) (before : Nat) (ns : List Node)
    (rest : List Event) :
    Event.total (entries place kind path before ns ++ rest) = 2 * Node.sizeAll ns + Event.total rest := by
  induction ns generalizing before with
  | nil => simp [entries, Node.sizeAll]
  | cons n ns ih =>
      rw [entries_cons, List.cons_append, Event.total, ih, Event.weight, Node.sizeAll, Nat.mul_add, Nat.add_assoc]

section Walk

variable {W : Type} (perform : Call → W → W)

/-- Goes on with the events on a stack. A node is numbered when it is entered, and stays among the parents until it
is left. -/
def walkFrom (counter : Nat) (parents : List Nat) (stack : List Event) (w : W) : W :=
  match stack with
  | [] => w
  | .enter r place :: rest =>
    walkFrom (counter + 1) (counter :: parents)
      (pushed (entries place r.node.kind r.path 0 r.node.children).reverse (.exit r place counter :: rest))
      (perform (.enter r place counter parents.head?) w)
  | .exit r place index :: rest => walkFrom counter parents.tail rest (perform (.exit r place index) w)
termination_by Event.total stack
decreasing_by
  · rw [pushed_reverse, total_entries, Event.total, Event.total, Event.weight, Event.weight, Node.size_eq]
    omega
  · rw [Event.total, Event.weight]
    omega

/-- Walks over a tree. -/
def walk (root : Node) (w : W) : W := walkFrom perform 0 [] [.enter ⟨[], root⟩ {}] w

/-- Performs calls one after the other. -/
def performAll (calls : List Call) (w : W) : W := calls.foldl (fun w c => perform c w) w

theorem performAll_append (cs ds : List Call) (w : W) :
    performAll perform (cs ++ ds) w = performAll perform ds (performAll perform cs w) := List.foldl_append

end Walk

/-! ## The calls of a walk -/

mutual

/-- The calls for the node, which is at the path, and for all below it: a node is entered before its children, and left
behind them. Numbers are given from `index` on. -/
def callsAt (place : NodePlace) (path : List Nat) (index : Nat) (parent : Option Nat) : Node → List Call
  | ⟨kind, payload, children, span, flags, doc, leading, trailing⟩ =>
    let r : Ref := ⟨path, ⟨kind, payload, children, span, flags, doc, leading, trailing⟩⟩
    .enter r place index parent ::
      (callsAmong place kind path 0 (index + 1) index children ++ [.exit r place index])

def callsAmong (place : NodePlace) (kind : NodeKind) (path : List Nat) (before index parent : Nat) :
    List Node → List Call
  | [] => []
  | n :: rest =>
    callsAt (place.child kind before) (path ++ [before]) index (some parent) n ++
      callsAmong place kind path (before + 1) (index + n.size) parent rest

end

/-- The calls for a tree. -/
def calls (root : Node) : List Call := callsAt {} [] 0 none root

theorem callsAt_eq (place : NodePlace) (path : List Nat) (index : Nat) (parent : Option Nat) (n : Node) :
    callsAt place path index parent n = .enter ⟨path, n⟩ place index parent ::
      (callsAmong place n.kind path 0 (index + 1) index n.children ++ [.exit ⟨path, n⟩ place index]) := by
  cases n
  rw [callsAt]

section Walk

variable {W : Type} (perform : Call → W → W)

mutual

/-- **The walk enters a node, walks over all below it and leaves it**, and then goes on with its stack. -/
theorem walkFrom_enter (place : NodePlace) (path : List Nat) (counter : Nat) (parents : List Nat)
    (rest : List Event) : (n : Node) → (w : W) →
    walkFrom perform counter parents (.enter ⟨path, n⟩ place :: rest) w =
      walkFrom perform (counter + n.size) parents rest
        (performAll perform (callsAt place path counter parents.head? n) w)
  | ⟨kind, payload, children, span, flags, doc, leading, trailing⟩, w => by
      rw [walkFrom, pushed_reverse, walkFrom_entries place kind path 0 (counter + 1) counter parents _ children,
        walkFrom, List.tail_cons, callsAt_eq, Node.size_eq]
      simp only [performAll, List.foldl_cons, List.foldl_append, List.foldl_nil]
      rw [Nat.add_right_comm, Nat.add_assoc]

theorem walkFrom_entries (place : NodePlace) (kind : NodeKind) (path : List Nat) (before counter parent : Nat)
    (parents : List Nat) (rest : List Event) : (ns : List Node) → (w : W) →
    walkFrom perform counter (parent :: parents) (entries place kind path before ns ++ rest) w =
      walkFrom perform (counter + Node.sizeAll ns) (parent :: parents) rest
        (performAll perform (callsAmong place kind path before counter parent ns) w)
  | [], w => by
      rw [callsAmong, Node.sizeAll]
      rfl
  | n :: ns, w => by
      rw [entries_cons, List.cons_append, walkFrom_enter _ _ counter (parent :: parents) _ n,
        walkFrom_entries place kind path (before + 1) (counter + n.size) parent parents rest ns, callsAmong,
        performAll_append, Node.sizeAll, Nat.add_assoc]
      rfl

end

/-- **The walk performs the calls for its tree**, one after the other. -/
theorem walk_eq (root : Node) (w : W) : walk perform root w = performAll perform (calls root) w := by
  rw [walk, walkFrom_enter, walkFrom]
  rfl

end Walk

/-- The calls of a walk, as they are made. -/
def logged (root : Node) : Array Call := walk (fun c cs => cs.push c) root #[]

theorem logged_eq (root : Node) : (logged root).toList = calls root := by
  have hlog (cs : List Call) (log : Array Call) :
      (performAll (fun c cs => cs.push c) cs log).toList = log.toList ++ cs := by
    induction cs generalizing log with
    | nil => simp [performAll]
    | cons c cs ih =>
        show (performAll _ cs (log.push c)).toList = _
        simp [ih]
  rw [logged, walk_eq, hlog]
  rfl

/-- **The calls of a walk are performed as they are logged**, whatever is done at them. -/
theorem walk_eq_logged {W : Type} (perform : Call → W → W) (root : Node) (w : W) :
    walk perform root w = performAll perform (logged root).toList w := by
  rw [walk_eq, logged_eq]

/-! ## Numbers -/

namespace Call

/-- The node that is entered, and its number. -/
def entered? : Call → Option (Ref × Nat)
  | enter r _ index _ => some (r, index)
  | exit .. => none

/-- The node that is left, and its number. -/
def left? : Call → Option (Ref × Nat)
  | enter .. => none
  | exit r _ index => some (r, index)

/-- The node that the call is about. -/
def ref : Call → Ref
  | enter r .. => r
  | exit r .. => r

end Call

mutual

/-- **A node is entered with its number in the order.** -/
theorem entered_callsAt (place : NodePlace) (path : List Nat) (index : Nat) (parent : Option Nat) :
    (n : Node) → (callsAt place path index parent n).filterMap Call.entered? = (n.refsAt path).zipIdx index
  | ⟨kind, payload, children, span, flags, doc, leading, trailing⟩ => by
      have hbelow := entered_callsAmong place kind path 0 (index + 1) index children
      rw [callsAt_eq, Node.refsAt_eq, List.zipIdx_cons, ← hbelow]
      simp [Call.entered?]

theorem entered_callsAmong (place : NodePlace) (kind : NodeKind) (path : List Nat) (before index parent : Nat) :
    (ns : List Node) → (callsAmong place kind path before index parent ns).filterMap Call.entered? =
      (Node.refsAmong path before ns).zipIdx index
  | [] => by
      rw [callsAmong, Node.refsAmong]
      rfl
  | n :: rest => by
      rw [callsAmong, Node.refsAmong, List.filterMap_append, List.zipIdx_append, Node.length_refsAt,
        entered_callsAt _ _ index _ n, entered_callsAmong place kind path (before + 1) (index + n.size) parent rest]

end

mutual

/-- A node is left with the number with which it was entered. -/
theorem left_callsAt (place : NodePlace) (path : List Nat) (index : Nat) (parent : Option Nat) :
    (n : Node) → ((callsAt place path index parent n).filterMap Call.left?).Perm ((n.refsAt path).zipIdx index)
  | ⟨kind, payload, children, span, flags, doc, leading, trailing⟩ => by
      have hbelow := left_callsAmong place kind path 0 (index + 1) index children
      rw [callsAt_eq, Node.refsAt_eq, List.zipIdx_cons, List.filterMap_cons, List.filterMap_append]
      refine List.perm_append_comm.trans ?_
      exact hbelow.cons _

theorem left_callsAmong (place : NodePlace) (kind : NodeKind) (path : List Nat) (before index parent : Nat) :
    (ns : List Node) → ((callsAmong place kind path before index parent ns).filterMap Call.left?).Perm
      ((Node.refsAmong path before ns).zipIdx index)
  | [] => by
      rw [callsAmong, Node.refsAmong]
      exact .nil
  | n :: rest => by
      rw [callsAmong, Node.refsAmong, List.filterMap_append, List.zipIdx_append, Node.length_refsAt]
      exact (left_callsAt _ _ index _ n).append
        (left_callsAmong place kind path (before + 1) (index + n.size) parent rest)

end

/-! ## A node is left behind all below it -/

/-- Nothing more is done with a node that was left, and with what is below it. -/
def Call.Precedes : Call → Call → Prop
  | enter .., _ => True
  | exit r _ _, d => ¬r.path <+: d.ref.path

theorem ref_mem_callsAmong {place : NodePlace} {kind : NodeKind} {path : List Nat} {before index parent : Nat}
    {ns : List Node} {c : Call} (h : c ∈ callsAmong place kind path before index parent ns) :
    c.ref ∈ Node.refsAmong path before ns := by
  cases c with
  | enter r place' i parent' =>
      have hmem := List.mem_filterMap.mpr ⟨_, h, (rfl : Call.entered? _ = some (r, i))⟩
      rw [entered_callsAmong] at hmem
      exact List.fst_mem_of_mem_zipIdx hmem
  | exit r place' i =>
      have hmem := List.mem_filterMap.mpr ⟨_, h, (rfl : Call.left? _ = some (r, i))⟩
      exact List.fst_mem_of_mem_zipIdx ((left_callsAmong _ _ _ _ _ _ _).mem_iff.mp hmem)

/-- The call is about a child of the node at the path, behind `before` others, or what is below it. -/
theorem path_of_mem_callsAmong {place : NodePlace} {kind : NodeKind} {path : List Nat} {before index parent : Nat}
    {ns : List Node} {c : Call} (h : c ∈ callsAmong place kind path before index parent ns) :
    ∃ i way, c.ref.path = path ++ (before + i) :: way := by
  obtain ⟨i, way, -, -, hpath, -⟩ := (Node.mem_refsAmong ns).mp (ref_mem_callsAmong h)
  exact ⟨i, way, hpath⟩

theorem path_of_mem_callsAt {place : NodePlace} {path : List Nat} {index : Nat} {parent : Option Nat} {n : Node}
    {c : Call} (h : c ∈ callsAt place path index parent n) : ∃ way, c.ref.path = path ++ way := by
  rw [callsAt_eq, List.mem_cons, List.mem_append, List.mem_singleton] at h
  rcases h with rfl | h | rfl
  · exact ⟨[], (List.append_nil path).symm⟩
  · obtain ⟨i, way, hpath⟩ := path_of_mem_callsAmong h
    exact ⟨_, hpath⟩
  · exact ⟨[], (List.append_nil path).symm⟩

/-- What is below one child comes before what is below another. -/
theorem precedes_of_lt {path way way' : List Nat} {i j : Nat} {c d : Call} (hc : c.ref.path = path ++ i :: way)
    (hd : d.ref.path = path ++ j :: way') (hij : i < j) : c.Precedes d := by
  cases c with
  | enter => trivial
  | exit r place index =>
      intro hprefix
      rw [hd, show r.path = path ++ i :: way from hc, List.prefix_append_right_inj, List.cons_prefix_cons] at hprefix
      omega

/-- A node is left behind its children. -/
theorem precedes_exit {path way : List Nat} {i : Nat} {c : Call} (hc : c.ref.path = path ++ i :: way) (n : Node)
    (place : NodePlace) (index : Nat) : c.Precedes (.exit ⟨path, n⟩ place index) := by
  cases c with
  | enter => trivial
  | exit r place' index' =>
      intro hprefix
      have hlen := hprefix.length_le
      rw [show r.path = path ++ i :: way from hc, List.length_append, List.length_cons] at hlen
      simp only [Call.ref] at hlen
      omega

mutual

theorem pairwise_callsAt (place : NodePlace) (path : List Nat) (index : Nat) (parent : Option Nat) :
    (n : Node) → (callsAt place path index parent n).Pairwise Call.Precedes
  | ⟨kind, payload, children, span, flags, doc, leading, trailing⟩ => by
      rw [callsAt_eq, List.pairwise_cons, List.pairwise_append]
      refine ⟨fun _ _ => trivial, pairwise_callsAmong place kind path 0 (index + 1) index children,
        List.pairwise_singleton _ _, ?_⟩
      intro c hc d hd
      obtain ⟨i, way, hpath⟩ := path_of_mem_callsAmong hc
      rw [List.mem_singleton] at hd
      rw [hd]
      exact precedes_exit hpath _ place index

theorem pairwise_callsAmong (place : NodePlace) (kind : NodeKind) (path : List Nat) (before index parent : Nat) :
    (ns : List Node) → (callsAmong place kind path before index parent ns).Pairwise Call.Precedes
  | [] => by
      rw [callsAmong]
      exact .nil
  | n :: rest => by
      rw [callsAmong, List.pairwise_append]
      refine ⟨pairwise_callsAt _ _ index _ n,
        pairwise_callsAmong place kind path (before + 1) (index + n.size) parent rest, ?_⟩
      intro c hc d hd
      obtain ⟨way, hc⟩ := path_of_mem_callsAt hc
      obtain ⟨i, way', hd⟩ := path_of_mem_callsAmong hd
      rw [List.append_assoc, List.singleton_append] at hc
      exact precedes_of_lt hc hd (by omega)

end

end Attaching

end EcmaScript
