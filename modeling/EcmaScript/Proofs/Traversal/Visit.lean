import EcmaScript.Proofs.Traversal.Order
import Mathlib.Computability.StateTransition

/-!
# Visiting a tree to change it

A visit may change each node that it comes to, and goes on with the children that the node has by then. The loop
keeps a stack of nodes inside one tree, which is here a stack of ways into it: what stands at a way is looked up when
the way is taken from the stack, and put back when it was changed (`put`).

A change may give new children to a node, and so on without end. So what the loop gives is a partial value: its steps
are made until there is none (`Visitor.step`). It is compared with a recursion over the changed nodes in both
directions: the loop comes to an end if and only if the recursion does, with the same tree and the same state, and the
nodes that it has visited are those of the new tree in pre-order (`mem_visit`). For changes that leave the children
alone the recursion is one over the old tree, and there is always an end (`visit_sparing`).

## Contents

* `Node.put`: a tree with another node at the end of a way.
* `Node.Visitor`, `Node.visit`: the loop. `Runs`: its runs up to the end.
* `Node.Visited`: the recursion over the nodes as they are changed.
* `Runs.visited`, `Visited.runs`: the one from the other.
* `Node.sparing`, `Node.rewrite`: changes that leave the children alone.
-/

namespace EcmaScript

/-- What a loop gives if it comes to an end. -/
abbrev Eventual (α : Type) : Type := Part α

namespace Node

/-! ## Changing a node in its tree -/

/-- The node with other children. -/
def withChildren (n : Node) (children : List Node) : Node := { n with children }

@[simp] theorem withChildren_self (n : Node) : n.withChildren n.children = n := by
  cases n
  rfl

@[simp] theorem children_withChildren (n : Node) (children : List Node) :
    (n.withChildren children).children = children := rfl

@[simp] theorem withChildren_withChildren (n : Node) (cs ds : List Node) :
    (n.withChildren cs).withChildren ds = n.withChildren ds := rfl

/-- The tree with `m` in the place at the end of a way. -/
def put (m : Node) : (way : List Nat) → Node → Node
  | [], _ => m
  | i :: way, n => n.withChildren (n.children.modify i (put m way))

variable {n m c : Node} {way : List Nat}

@[simp] theorem put_nil (m n : Node) : put m [] n = m := rfl

theorem descend?_append (n : Node) (way further : List Nat) :
    n.descend? (way ++ further) = (n.descend? way).bind (·.descend? further) := by
  induction way generalizing n with
  | nil => rfl
  | cons i way ih =>
      simp only [List.cons_append, descend?]
      cases n.children[i]? with
      | none => rfl
      | some child => exact ih child

/-- A way goes on from the child of its first index. -/
theorem descend?_cons {i : Nat} : n.descend? (i :: way) = some c ↔
    ∃ child, n.children[i]? = some child ∧ child.descend? way = some c := by
  rw [descend?]
  cases n.children[i]? <;> simp

theorem put_cons {i : Nat} {child : Node} (h : n.children[i]? = some child) (m : Node) (way : List Nat) :
    put m (i :: way) n = n.withChildren (n.children.set i (put m way child)) := by
  rw [put, List.modify_eq_set, h, Option.getD_some]

theorem descend?_put (h : n.descend? way = some c) : (put m way n).descend? way = some m := by
  induction way generalizing n with
  | nil => rfl
  | cons i way ih =>
      obtain ⟨child, hchild, h⟩ := descend?_cons.mp h
      obtain ⟨hi, -⟩ := List.getElem?_eq_some_iff.mp hchild
      rw [put_cons hchild, descend?_cons]
      exact ⟨put m way child, by simp [hi], ih h⟩

theorem put_self (h : n.descend? way = some c) : put c way n = n := by
  induction way generalizing n with
  | nil =>
      cases h
      rfl
  | cons i way ih =>
      obtain ⟨child, hchild, h⟩ := descend?_cons.mp h
      obtain ⟨hi, rfl⟩ := List.getElem?_eq_some_iff.mp hchild
      rw [put_cons hchild, ih h, List.set_getElem_self, withChildren_self]

theorem put_put (m m' : Node) (way : List Nat) (n : Node) : put m' way (put m way n) = put m' way n := by
  induction way generalizing n with
  | nil => rfl
  | cons i way ih =>
      simp only [put, List.modify_modify_eq, children_withChildren, withChildren_withChildren]
      congr 2
      funext child
      exact ih child

/-- A child is put into its parent. -/
theorem put_child (h : n.descend? way = some m) (c : Node) (i : Nat) :
    put c (way ++ [i]) n = put (m.withChildren (m.children.set i c)) way n := by
  induction way generalizing n with
  | nil =>
      cases h
      simp [put, List.set_eq_modify]
  | cons j way ih =>
      obtain ⟨child, hchild, h⟩ := descend?_cons.mp h
      rw [List.cons_append, put_cons hchild, put_cons hchild, ih h]

/-- A child is put among its siblings. -/
theorem put_sibling {before ns : List Node} (h : n.descend? way = some m) (hm : m.children = before ++ c :: ns)
    (c' : Node) : put c' (way ++ [before.length]) n = put (m.withChildren (before ++ c' :: ns)) way n := by
  rw [put_child h, hm, List.set_append_right _ _ (Nat.le_refl _), Nat.sub_self, List.set_cons_zero]

theorem descend?_sibling {before ns : List Node} (h : n.descend? way = some m)
    (hm : m.children = before ++ c :: ns) : n.descend? (way ++ [before.length]) = some c := by
  rw [descend?_append, h, Option.bind_some, descend?_cons]
  exact ⟨c, by simp [hm], rfl⟩

/-! ## The loop -/

/-- The ways to `count` children of a node, behind `index` others. -/
def childWays (way : List Nat) (index count : Nat) : List (List Nat) :=
  (List.range' index count).map fun i => way ++ [i]

theorem childWays_succ (way : List Nat) (index count : Nat) :
    childWays way index (count + 1) = (way ++ [index]) :: childWays way (index + 1) count := rfl

/-- The ways to nodes with one parent and to all below them. -/
def waysAmong (way : List Nat) (index : Nat) (ns : List Node) : List (List Nat) :=
  (refsAmong way index ns).map (·.path)

theorem waysAmong_cons (way : List Nat) (index : Nat) (n : Node) (ns : List Node) :
    waysAmong way index (n :: ns) =
      (way ++ [index]) :: waysAmong (way ++ [index]) 0 n.children ++ waysAmong way (index + 1) ns := by
  rw [waysAmong, refsAmong, refsAt_eq, List.map_append, List.map_cons]
  rfl

/-- What a visit keeps: the tree as it is by now, the ways to the nodes on its stack, the state of the change, and the
ways to the nodes that it has visited. -/
structure Visitor (σ : Type) where
  tree : Node
  stack : List (List Nat)
  state : σ
  visited : List (List Nat) := []

section Loop

variable {σ : Type} (f : Node → StateM σ Node)

/-- Changes the node at the top of the stack, and puts the children there that it has by then, the last one first. -/
def Visitor.step (v : Visitor σ) : Option (Visitor σ) :=
  match v.stack with
  | [] => none
  | way :: rest =>
    match v.tree.descend? way with
    -- no way on the stack comes to this, but that has to be seen from what was put there
    | none => some { v with stack := rest }
    | some n =>
      match f n v.state with
      | (m, s) =>
        some ⟨put m way v.tree, pushed (childWays way 0 m.children.length).reverse rest, s, v.visited ++ [way]⟩

/-- Changes all nodes of a tree, each of them before its children, and those that it has by then from left to right.
Gives the ways in the order of the visits, the tree and the state behind them; nothing is given if `f` makes new nodes
without end. -/
def visit (root : Node) (s : σ) : Eventual (List (List Nat) × Node × σ) :=
  (StateTransition.eval (Visitor.step f) ⟨root, [[]], s, []⟩).map fun v => (v.visited, v.tree, v.state)

/-- A run of the loop up to its end. -/
inductive Runs : Node → List (List Nat) → σ → List (List Nat) → Node → σ → Prop
  | done (tree : Node) (s : σ) : Runs tree [] s [] tree s
  | skip {tree t : Node} {way : List Nat} {rest ways : List (List Nat)} {s u : σ} (hn : tree.descend? way = none)
      (hr : Runs tree rest s ways t u) : Runs tree (way :: rest) s ways t u
  | step {tree t n : Node} {way : List Nat} {rest ways : List (List Nat)} {s u : σ}
      (hn : tree.descend? way = some n)
      (hr : Runs (put (f n s).1 way tree) (childWays way 0 (f n s).1.children.length ++ rest) (f n s).2 ways t u) :
      Runs tree (way :: rest) s (way :: ways) t u

namespace Visitor

variable {f} {v w : Visitor σ} {way : List Nat} {rest : List (List Nat)}

theorem step_skip (h : v.stack = way :: rest) (hn : v.tree.descend? way = none) :
    v.step f = some { v with stack := rest } := by
  rw [step, h]
  simp only [hn]

theorem step_visit {n : Node} (h : v.stack = way :: rest) (hn : v.tree.descend? way = some n) :
    v.step f = some ⟨put (f n v.state).1 way v.tree, childWays way 0 (f n v.state).1.children.length ++ rest,
      (f n v.state).2, v.visited ++ [way]⟩ := by
  rw [step, h]
  simp only [hn, pushed_reverse]
  rfl

/-- The loop ends when its stack is empty. -/
theorem step_eq_none : v.step f = none ↔ v.stack = [] := by
  constructor
  · intro h
    cases hstack : v.stack with
    | nil => rfl
    | cons way rest =>
        cases hn : v.tree.descend? way with
        | none =>
            rw [step_skip hstack hn] at h
            cases h
        | some n =>
            rw [step_visit hstack hn] at h
            cases h
  · intro h
    rw [step, h]

/-- What comes out of the loop is the end of a run. -/
theorem exists_runs (h : w ∈ StateTransition.eval (step f) v) :
    ∃ ways, Runs f v.tree v.stack v.state ways w.tree w.state ∧ w.visited = v.visited ++ ways := by
  obtain ⟨hreach, hend⟩ := StateTransition.mem_eval.mp h
  induction hreach using Relation.ReflTransGen.head_induction_on with
  | refl =>
      rw [step_eq_none.mp hend]
      exact ⟨[], .done w.tree w.state, (List.append_nil _).symm⟩
  | @head v v' hstep hreach ih =>
      obtain ⟨ways, hr, hvisited⟩ := ih (StateTransition.mem_eval.mpr ⟨hreach, hend⟩)
      rw [Option.mem_def] at hstep
      cases hstack : v.stack with
      | nil =>
          rw [step_eq_none.mpr hstack] at hstep
          cases hstep
      | cons way rest =>
          cases hn : v.tree.descend? way with
          | none =>
              rw [step_skip hstack hn] at hstep
              cases hstep
              exact ⟨ways, .skip hn hr, hvisited⟩
          | some n =>
              rw [step_visit hstack hn] at hstep
              cases hstep
              refine ⟨way :: ways, .step hn hr, ?_⟩
              rw [hvisited, List.append_assoc, List.singleton_append]

end Visitor

variable {f}

/-- A run is what the loop does. -/
theorem Runs.mem_eval {tree t : Node} {stack ways : List (List Nat)} {s u : σ} (h : Runs f tree stack s ways t u)
    (before : List (List Nat)) :
    ⟨t, [], u, before ++ ways⟩ ∈ StateTransition.eval (Visitor.step f) ⟨tree, stack, s, before⟩ := by
  induction h generalizing before with
  | done tree s =>
      rw [List.append_nil]
      exact StateTransition.mem_eval.mpr ⟨.refl, Visitor.step_eq_none.mpr rfl⟩
  | skip hn hr ih =>
      rw [StateTransition.reaches_eval (.single (Visitor.step_skip rfl hn))]
      exact ih before
  | @step tree t n way rest ways s u hn hr ih =>
      have hvisited := ih (before ++ [way])
      rw [List.append_assoc, List.singleton_append] at hvisited
      rw [StateTransition.reaches_eval (.single (Visitor.step_visit rfl hn))]
      exact hvisited

theorem mem_visit_iff_runs {root t : Node} {ways : List (List Nat)} {s u : σ} :
    (ways, t, u) ∈ root.visit f s ↔ Runs f root [[]] s ways t u := by
  rw [visit, Part.mem_map_iff]
  constructor
  · rintro ⟨v, hv, heq⟩
    cases heq
    obtain ⟨ways, hr, hvisited⟩ := Visitor.exists_runs hv
    rw [hvisited]
    exact hr
  · intro h
    exact ⟨_, h.mem_eval [], rfl⟩

/-! ## The recursion -/

variable (f)

/-- Trees with one parent are visited by recursion: each node is changed before the children that it has by then. -/
inductive Visited : List Node → σ → List Node → σ → Prop
  | nil (s : σ) : Visited [] s [] s
  | cons {n : Node} {ns cs ms : List Node} {s s' u : σ}
      (below : Visited (f n s).1.children (f n s).2 cs s') (behind : Visited ns s' ms u) :
      Visited (n :: ns) s ((f n s).1.withChildren cs :: ms) u

variable {f}

/-- **The loop comes to the end of each tree**, and then goes on with what is behind it on the stack. -/
theorem Runs.visited {tree t p : Node} {way : List Nat} (before : List Node) {ns : List Node}
    {rest ways : List (List Nat)} {s u : σ} (h : Runs f tree (childWays way before.length ns.length ++ rest) s ways t u)
    (hp : tree.descend? way = some p) (hns : p.children = before ++ ns) :
    ∃ cs s' later, Visited f ns s cs s' ∧ ways = waysAmong way before.length cs ++ later ∧
      Runs f (put (p.withChildren (before ++ cs)) way tree) rest s' later t u := by
  -- the induction is on the number of visits, for the siblings come behind all that is below a node
  induction hlen : ways.length using Nat.strong_induction_on generalizing tree p way before ns rest ways s with
  | _ k ih =>
    subst hlen
    cases ns with
    | nil =>
        refine ⟨[], s, ways, .nil s, by simp [waysAmong, refsAmong], ?_⟩
        rw [← hns, withChildren_self, put_self hp]
        simpa [childWays] using h
    | cons n ns =>
        rw [List.length_cons, childWays_succ, List.cons_append] at h
        have hchild := descend?_sibling hp hns
        cases h with
        | skip hn hr => exact nomatch hchild.symm.trans hn
        | @step _ _ n' _ _ ways _ _ hn hr =>
          obtain rfl : n = n' := Option.some.inj (hchild.symm.trans hn)
          obtain ⟨cs, s₁, behind, hbelow, rfl, hnext⟩ :=
            ih ways.length (by simp) [] hr (descend?_put hchild) rfl rfl
          rw [put_put, List.nil_append, put_sibling hp hns, List.append_cons] at hnext
          have hsize : (before ++ [(f n s).1.withChildren cs]).length = before.length + 1 := by simp
          rw [← hsize] at hnext
          obtain ⟨ms, s₂, later, hbehind, rfl, hlast⟩ :=
            ih behind.length (by rw [List.length_cons, List.length_append]; omega) _ hnext (descend?_put hp) rfl rfl
          refine ⟨_, s₂, later, .cons hbelow hbehind, ?_, ?_⟩
          · simp [waysAmong_cons]
          · simpa [put_put] using hlast

/-- **The recursion is a run of the loop.** -/
theorem Visited.runs {ns cs : List Node} {s s' : σ} (h : Visited f ns s cs s') {tree t p : Node} {way : List Nat}
    (before : List Node) {rest ways : List (List Nat)} {u : σ} (hp : tree.descend? way = some p)
    (hns : p.children = before ++ ns)
    (hr : Runs f (put (p.withChildren (before ++ cs)) way tree) rest s' ways t u) :
    Runs f tree (childWays way before.length ns.length ++ rest) s
      (waysAmong way before.length cs ++ ways) t u := by
  -- the tree changes while the recursion goes on, and the siblings that were visited join those before
  induction h generalizing tree p way before rest ways with
  | nil s =>
      rw [← hns, withChildren_self, put_self hp] at hr
      simpa [childWays, waysAmong, refsAmong] using hr
  | @cons n ns cs ms s s₁ u below behind ihbelow ihbehind =>
      have hchild := descend?_sibling hp hns
      have hsize : (before ++ [(f n s).1.withChildren cs]).length = before.length + 1 := by simp
      rw [List.length_cons, childWays_succ, List.cons_append, waysAmong_cons, List.cons_append, List.cons_append,
        List.append_assoc]
      -- the children of the changed node are the first ones below it, so nothing is before them
      refine .step hchild (ihbelow [] (descend?_put hchild) rfl ?_)
      rw [put_put, List.nil_append, put_sibling hp hns, List.append_cons, ← hsize]
      refine ihbehind _ (descend?_put hp) rfl ?_
      simpa [put_put] using hr

/-- **The loop is the recursion**, and visits the nodes in pre-order, whatever `f` makes of them. It has no end where
the recursion has none. -/
theorem mem_visit {root t : Node} {ways : List (List Nat)} {s u : σ} :
    (ways, t, u) ∈ root.visit f s ↔ Visited f [root] s [t] u ∧ ways = t.refs.map (·.path) := by
  rw [mem_visit_iff_runs]
  constructor
  · intro h
    cases h with
    | skip hn hr => cases hn
    | @step _ _ n _ _ ways _ _ hn hr =>
      cases hn
      obtain ⟨cs, s', later, hbelow, rfl, hend⟩ := hr.visited [] rfl rfl
      cases hend
      refine ⟨.cons hbelow (.nil u), ?_⟩
      rw [List.append_nil, refs, refsAt_eq]
      rfl
  · rintro ⟨h, rfl⟩
    cases h with
    | cons below behind =>
      cases behind
      rw [refs, refsAt_eq, List.map_cons]
      refine .step rfl ?_
      have hruns : Runs f (f root s).1 (childWays [] 0 (f root s).1.children.length ++ []) (f root s).2 _ _ u :=
        below.runs [] rfl rfl (.done _ u)
      simpa [waysAmong] using hruns

/-! ## Changes that leave the children alone -/

variable (f)

/-- The change without what it makes of the children. -/
def sparing (n : Node) : StateM σ Node := do
  let m ← f n
  return m.withChildren n.children

mutual

/-- Changes all nodes of a tree by recursion, but for their children. -/
def rewrite : Node → StateM σ Node
  | ⟨kind, payload, children, span, flags, doc, leading, trailing⟩ => do
    let m ← f ⟨kind, payload, children, span, flags, doc, leading, trailing⟩
    let below ← rewriteAll children
    return m.withChildren below

def rewriteAll : List Node → StateM σ (List Node)
  | [] => return []
  | n :: rest => do
    let m ← rewrite n
    return m :: (← rewriteAll rest)

end

theorem rewrite_eq (n : Node) (s : σ) :
    rewrite f n s = ((f n s).1.withChildren (rewriteAll f n.children (f n s).2).1,
      (rewriteAll f n.children (f n s).2).2) := by
  cases n
  rw [rewrite]
  rfl

theorem rewriteAll_cons (n : Node) (rest : List Node) (s : σ) :
    rewriteAll f (n :: rest) s = ((rewrite f n s).1 :: (rewriteAll f rest (rewrite f n s).2).1,
      (rewriteAll f rest (rewrite f n s).2).2) := by
  rw [rewriteAll]
  rfl

variable {f}

mutual

theorem visited_rewrite {ns ms : List Node} {u : σ} : (n : Node) → (s : σ) →
    Visited (sparing f) ns (rewrite f n s).2 ms u → Visited (sparing f) (n :: ns) s ((rewrite f n s).1 :: ms) u
  | ⟨kind, payload, children, span, flags, doc, leading, trailing⟩, s => by
      intro behind
      rw [rewrite_eq] at behind ⊢
      exact .cons (visited_rewriteAll children _) behind

theorem visited_rewriteAll : (ns : List Node) → (s : σ) →
    Visited (sparing f) ns s (rewriteAll f ns s).1 (rewriteAll f ns s).2
  | [], s => by
      rw [rewriteAll]
      exact .nil s
  | n :: rest, s => by
      rw [rewriteAll_cons]
      exact visited_rewrite n s (visited_rewriteAll rest _)

end

mutual

theorem paths_rewrite (path : List Nat) : (n : Node) → (s : σ) →
    ((rewrite f n s).1.refsAt path).map (·.path) = (n.refsAt path).map (·.path)
  | ⟨kind, payload, children, span, flags, doc, leading, trailing⟩, s => by
      rw [rewrite_eq, refsAt_eq, refsAt_eq, List.map_cons, List.map_cons, children_withChildren]
      exact congrArg (path :: ·) (paths_rewriteAll path 0 children _)

theorem paths_rewriteAll (path : List Nat) (index : Nat) : (ns : List Node) → (s : σ) →
    waysAmong path index (rewriteAll f ns s).1 = waysAmong path index ns
  | [], s => by
      rw [rewriteAll]
      rfl
  | n :: rest, s => by
      rw [rewriteAll_cons, waysAmong, refsAmong, List.map_append, paths_rewrite (path ++ [index]) n s]
      show _ ++ waysAmong path (index + 1) _ = _
      rw [paths_rewriteAll path (index + 1) rest, waysAmong, waysAmong, refsAmong, List.map_append]

end

/-- **A change that leaves the children alone comes to an end**, at which every node of the tree was visited once, in
pre-order. -/
theorem visit_sparing (f : Node → StateM σ Node) (root : Node) (s : σ) :
    root.visit (sparing f) s = Part.some (root.refs.map (·.path), rewrite f root s) := by
  refine Part.eq_some_iff.mpr (mem_visit.mpr ⟨visited_rewrite root s (.nil _), ?_⟩)
  exact (paths_rewrite [] root s).symm

end Loop

end Node

end EcmaScript
