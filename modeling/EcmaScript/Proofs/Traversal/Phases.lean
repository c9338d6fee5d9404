import EcmaScript.Proofs.CommentPolicy
import EcmaScript.Proofs.Traversal.Decision
import EcmaScript.Proofs.Traversal.Visit

/-!
# Two phases

Comments are attached in two phases: a walk that enters and leaves the nodes decides by their numbers what belongs to
them, and a visit that changes the nodes counts them and writes it. As the visit comes to the nodes in pre-order and
leaves their children alone, the node that is written to is the one that has the number in the order
(`visit_writeNext`, `alone_written`). What comes out is the tree to which the comments are attached by one recursion
(`attachInPhases_bare`).

The proof goes along with the recursion. When the walk comes to a node with the number `index`, nothing is decided for
numbers from `index` on (`Fresh`), and what it decides then is about the numbers of the node and of those below it
(`Walked`). That is why what was decided for the siblings before stays as it is.

## Contents

* `Node.attach`, `Node.writeNext`: one node, and one step of the visit.
* `Node.written`: the tree with what was decided for its nodes, by recursion.
* `Walker.Walked`, `Walker.Fresh`: which entries of the tables a part of the walk can change.
* `Walker.walked_node`: what is decided for a node and all below it is what is attached to them.
* `Node.decideComments`, `Node.writeComments`, `Node.attachInPhases`: the phases.
-/

namespace EcmaScript

namespace Node

/-! ## The second phase -/

/-- The node with what was decided for it. Where nothing was decided, nothing changes. -/
def attach (n : Node) : Option Attachment → Node
  | none => n
  | some a =>
    { n with
      doc := a.doc.or n.doc
      leading := a.leading.map (·.attached)
      trailing := a.trailing.map (·.attached) }

/-- Writes what was decided for the next node, in the order of the visits. -/
def writeNext (decisions : Nat → Option Attachment) (n : Node) : StateM Nat Node := do
  let index ← get
  set (index + 1)
  return n.attach (decisions index)

mutual

/-- The tree with what was decided for its nodes, which are numbered from `index` on. -/
def written (decisions : Nat → Option Attachment) (index : Nat) : Node → Node
  | ⟨kind, payload, children, span, flags, doc, leading, trailing⟩ =>
    (attach ⟨kind, payload, children, span, flags, doc, leading, trailing⟩ (decisions index)).withChildren
      (writtenAll decisions (index + 1) children)

def writtenAll (decisions : Nat → Option Attachment) (index : Nat) : List Node → List Node
  | [] => []
  | n :: rest => written decisions index n :: writtenAll decisions (index + n.size) rest

end

theorem written_eq (decisions : Nat → Option Attachment) (index : Nat) (n : Node) :
    n.written decisions index =
      (n.attach (decisions index)).withChildren (writtenAll decisions (index + 1) n.children) := by
  cases n
  rw [written]

theorem writtenAll_cons (decisions : Nat → Option Attachment) (index : Nat) (n : Node) (rest : List Node) :
    writtenAll decisions index (n :: rest) =
      n.written decisions index :: writtenAll decisions (index + n.size) rest := by
  rw [writtenAll]

theorem children_written (decisions : Nat → Option Attachment) (index : Nat) (n : Node) :
    (n.written decisions index).children = writtenAll decisions (index + 1) n.children := by
  rw [written_eq, children_withChildren]

theorem children_attach (n : Node) (a : Option Attachment) : (n.attach a).children = n.children := by
  cases a <;> rfl

/-- Writing leaves the children alone. -/
theorem sparing_writeNext (decisions : Nat → Option Attachment) :
    sparing (writeNext decisions) = writeNext decisions := by
  funext n index
  show ((n.attach (decisions index)).withChildren n.children, index + 1) = (n.attach (decisions index), index + 1)
  rw [← children_attach n (decisions index), withChildren_self]

mutual

theorem rewrite_writeNext (decisions : Nat → Option Attachment) (index : Nat) :
    (n : Node) → rewrite (writeNext decisions) n index = (n.written decisions index, index + n.size)
  | ⟨kind, payload, children, span, flags, doc, leading, trailing⟩ => by
      rw [rewrite_eq, written_eq, size_eq, ← Nat.add_assoc, Nat.add_right_comm]
      show ((attach _ (decisions index)).withChildren (rewriteAll _ children (index + 1)).1,
        (rewriteAll _ children (index + 1)).2) = _
      rw [rewriteAll_writeNext decisions (index + 1) children]

theorem rewriteAll_writeNext (decisions : Nat → Option Attachment) (index : Nat) :
    (ns : List Node) →
      rewriteAll (writeNext decisions) ns index = (writtenAll decisions index ns, index + sizeAll ns)
  | [] => by
      rw [rewriteAll, writtenAll, sizeAll]
      rfl
  | n :: rest => by
      rw [rewriteAll_cons, rewrite_writeNext decisions index n,
        rewriteAll_writeNext decisions (index + n.size) rest, writtenAll, sizeAll, Nat.add_assoc]

end

/-- **Writing reaches every node** with the number that it has in the order. -/
theorem visit_writeNext (decisions : Nat → Option Attachment) (root : Node) :
    root.visit (writeNext decisions) 0 =
      Part.some (root.refs.map (·.path), root.written decisions 0, root.size) := by
  rw [← sparing_writeNext, visit_sparing, rewrite_writeNext, Nat.zero_add]

mutual

/-- What is written to a node is what was decided for its number. -/
theorem refsAt_written (decisions : Nat → Option Attachment) (path : List Nat) (index : Nat) :
    (n : Node) → (n.written decisions index).refsAt path =
      ((n.refsAt path).zipIdx index).map fun (r, k) => ⟨r.path, r.node.written decisions k⟩
  | ⟨kind, payload, children, span, flags, doc, leading, trailing⟩ => by
      rw [refsAt_eq, refsAt_eq, List.zipIdx_cons, List.map_cons, children_written,
        refsAmong_writtenAll decisions path 0 (index + 1) children]

theorem refsAmong_writtenAll (decisions : Nat → Option Attachment) (path : List Nat) (before index : Nat) :
    (ns : List Node) → refsAmong path before (writtenAll decisions index ns) =
      ((refsAmong path before ns).zipIdx index).map fun (r, k) => ⟨r.path, r.node.written decisions k⟩
  | [] => by
      rw [writtenAll, refsAmong]
      rfl
  | n :: rest => by
      rw [writtenAll, refsAmong, refsAmong, List.zipIdx_append, List.map_append, length_refsAt,
        refsAt_written decisions _ index n, refsAmong_writtenAll decisions path (before + 1) (index + n.size) rest]

end

mutual

/-- Only the decisions about the nodes of the tree count. -/
theorem written_congr {decisions decisions' : Nat → Option Attachment} {index : Nat} :
    {n : Node} → (∀ k, index ≤ k → k < index + n.size → decisions k = decisions' k) →
      n.written decisions index = n.written decisions' index
  | ⟨kind, payload, children, span, flags, doc, leading, trailing⟩, h => by
      rw [size_eq] at h
      rw [written_eq, written_eq, h index (Nat.le_refl _) (by omega)]
      congr 1
      apply writtenAll_congr
      intro k hlo hhi
      exact h k (by omega) (by omega)

theorem writtenAll_congr {decisions decisions' : Nat → Option Attachment} {index : Nat} :
    {ns : List Node} → (∀ k, index ≤ k → k < index + sizeAll ns → decisions k = decisions' k) →
      writtenAll decisions index ns = writtenAll decisions' index ns
  | [], _ => by rw [writtenAll, writtenAll]
  | n :: rest, h => by
      rw [sizeAll] at h
      rw [writtenAll, writtenAll]
      congr 1
      · apply written_congr
        intro k hlo hhi
        exact h k hlo (by omega)
      · apply writtenAll_congr
        intro k hlo hhi
        exact h k (by omega) (by omega)

end

/-- A node by itself. -/
def alone (r : Ref) : Ref := ⟨r.path, r.node.withChildren []⟩

/-- **The node of a number gets what was decided for the number**, and nothing else happens to it. -/
theorem alone_written (decisions : Nat → Option Attachment) (root : Node) :
    (root.written decisions 0).refs.map alone =
      root.refs.zipIdx.map fun (r, k) => ⟨r.path, (r.node.attach (decisions k)).withChildren []⟩ := by
  rw [refs, refsAt_written, List.map_map]
  apply List.map_congr_left
  rintro ⟨r, k⟩ -
  simp only [Function.comp_apply, alone, written_eq, withChildren_withChildren]

/-! ## Trees without comments -/

/-- A node without comments shows what was decided for it, and nothing else. -/
theorem attach_bare (n : Node) (a : Option Attachment) :
    n.bare.attach a =
      { n with
        children := bareAll n.children
        doc := (a.getD {}).doc
        leading := (a.getD {}).leading.map (·.attached)
        trailing := (a.getD {}).trailing.map (·.attached) } := by
  cases n
  rw [bare]
  cases a with
  | none => rfl
  | some a => simp [attach]

mutual

theorem size_bare : (n : Node) → n.bare.size = n.size
  | ⟨kind, payload, children, span, flags, doc, leading, trailing⟩ => by
      rw [bare, size, size, sizeAll_bareAll children]

theorem sizeAll_bareAll : (ns : List Node) → sizeAll (bareAll ns) = sizeAll ns
  | [] => by rw [bareAll]
  | n :: rest => by rw [bareAll, sizeAll, sizeAll, size_bare n, sizeAll_bareAll rest]

end

end Node

namespace Attaching

open Node (written writtenAll sizeAll bareAll)

/-! ## The last child of a block -/

/-- The number of the last one of nodes with one parent, the first of which has the number `index`. -/
def lastNumber (index : Nat) : List Node → Option Nat
  | [] => none
  | [_] => some index
  | n :: rest => lastNumber (index + n.size) rest

theorem lastNumber_cons (index : Nat) (n : Node) (rest : List Node) :
    lastNumber index (n :: rest) = (lastNumber (index + n.size) rest).or (some index) := by
  induction rest generalizing index n with
  | nil => rfl
  | cons m rest ih =>
      rw [lastNumber, ih]
      · cases lastNumber (index + n.size + m.size) rest <;> rfl
      · nofun

theorem lastNumber_eq_none {index : Nat} {ns : List Node} : lastNumber index ns = none ↔ ns = [] := by
  cases ns with
  | nil => simp [lastNumber]
  | cons n rest => simp [lastNumber_cons]

theorem lastNumber_bounds {index last : Nat} {ns : List Node} (h : lastNumber index ns = some last) :
    index ≤ last ∧ last < index + sizeAll ns := by
  induction ns generalizing index with
  | nil => cases h
  | cons n rest ih =>
      have hsize : 0 < n.size := n.size_pos
      rw [lastNumber_cons] at h
      rw [sizeAll]
      cases hrest : lastNumber (index + n.size) rest with
      | none =>
          rw [hrest] at h
          cases h
          omega
      | some k =>
          rw [hrest] at h
          cases h
          have := ih hrest
          omega

/-- **What is decided for the last child is written to the last child.** -/
theorem writtenAll_attachToLast {decisions decisions' : Nat → Option Attachment} {index last : Nat} {ns : List Node}
    {trailing : Option CommentRun} {late : List PendingComment} (hlast : lastNumber index ns = some last)
    (hothers : ∀ k, k ≠ last → decisions' k = decisions k)
    (hdecided : (decisions' last).getD {} = ((decisions last).getD {}).trailed trailing)
    (hlate : trailing.map (·.attached) =
      late.foldl addBlockTrailing (((decisions last).getD {}).trailing.map (·.attached))) :
    writtenAll decisions' index (bareAll ns) = attachToLast late (writtenAll decisions index (bareAll ns)) := by
  induction ns generalizing index with
  | nil => cases hlast
  | cons n rest ih =>
      cases rest with
      | nil =>
          cases hlast
          have hbelow :
              writtenAll decisions' (last + 1) n.bare.children = writtenAll decisions (last + 1) n.bare.children :=
            Node.writtenAll_congr fun k hk _ => hothers k (by omega)
          simp only [bareAll, writtenAll, attachToLast, Node.written_eq, hbelow, Node.attach_bare, hdecided]
          simp [Node.withChildren, Attachment.trailed, hlate]
      | cons m rest =>
          obtain ⟨hlo, -⟩ : index + n.size ≤ last ∧ _ := lastNumber_bounds hlast
          have hfirst : n.bare.written decisions' index = n.bare.written decisions index := by
            apply Node.written_congr
            intro k _ hk
            rw [Node.size_bare] at hk
            exact hothers k (by omega)
          rw [bareAll, Node.writtenAll_cons, Node.writtenAll_cons, hfirst, Node.size_bare, ih hlast, attachToLast]
          rw [bareAll, writtenAll]
          nofun

namespace Walker

/-! ## The first phase -/

/-- The walker came from one state to another, and decided about nodes with numbers from `lo` up to `hi` only. -/
structure Walked (w w' : Walker) (lo hi : Nat) (s : State) : Prop where
  state : w'.toState = s
  decisions : ∀ k, k < lo ∨ hi ≤ k → w'.decisions k = w.decisions k
  lastChild : ∀ k, k < lo ∨ hi ≤ k → w'.lastChild k = w.lastChild k

/-- Nothing is known about nodes from a number on. -/
structure Fresh (w : Walker) (index : Nat) : Prop where
  decisions : ∀ k, index ≤ k → w.decisions k = none
  lastChild : ∀ k, index ≤ k → w.lastChild k = none

variable {w w₀ w₁ w₂ : Walker} {lo hi lo' hi' index parent : Nat} {s t : State} {a : Attachment}

theorem Settles.walked (h : w.Settles w₁ index s a) (hlo : lo ≤ index) (hhi : index < hi) : w.Walked w₁ lo hi s :=
  ⟨h.state, fun k hk => h.others k (by omega), fun k _ => congrFun h.lastChild k⟩

theorem Walked.trans (h : w.Walked w₁ lo hi s) (h' : w₁.Walked w₂ lo' hi' t) (hlo : lo ≤ lo') (hhi : hi' ≤ hi) :
    w.Walked w₂ lo hi t :=
  ⟨h'.state, fun k hk => (h'.decisions k (by omega)).trans (h.decisions k hk),
    fun k hk => (h'.lastChild k (by omega)).trans (h.lastChild k hk)⟩

theorem Walked.widen (h : w.Walked w₁ lo' hi' s) (hlo : lo ≤ lo') (hhi : hi' ≤ hi) : w.Walked w₁ lo hi s :=
  ⟨h.state, fun k hk => h.decisions k (by omega), fun k hk => h.lastChild k (by omega)⟩

theorem Fresh.mono (h : w.Fresh lo) (hle : lo ≤ hi) : w.Fresh hi :=
  ⟨fun k hk => h.decisions k (by omega), fun k hk => h.lastChild k (by omega)⟩

theorem Fresh.walked (h : w.Fresh lo) (hw : w.Walked w₁ lo hi s) (hle : lo ≤ hi) : w₁.Fresh hi :=
  ⟨fun k hk => (hw.decisions k (.inr hk)).trans (h.decisions k (by omega)),
    fun k hk => (hw.lastChild k (.inr hk)).trans (h.lastChild k (by omega))⟩

theorem Fresh.decided (h : w.Fresh index) : w.decided index = {} := by
  rw [Walker.decided, h.decisions index (Nat.le_refl _)]
  rfl

/-! ### Notes about children -/

@[simp] theorem note_none (w : Walker) (parent : Option Nat) : w.note parent none = w := by
  cases parent <;> rfl

@[simp] theorem toState_note (w : Walker) (parent child : Option Nat) : (w.note parent child).toState = w.toState := by
  cases parent <;> cases child <;> rfl

@[simp] theorem decisions_note (w : Walker) (parent child : Option Nat) :
    (w.note parent child).decisions = w.decisions := by
  cases parent <;> cases child <;> rfl

theorem lastChild_note (w : Walker) (parent child : Option Nat) (k : Nat) :
    (w.note parent child).lastChild k = if parent = some k then child.or (w.lastChild k) else w.lastChild k := by
  cases parent with
  | none => simp [note]
  | some p =>
      cases child with
      | none => simp [note]
      | some c =>
          by_cases hp : p = k
          · simp [note, hp]
          · simp [note, hp, Ne.symm hp]

theorem Fresh.note (h : w.Fresh index) {parent : Option Nat} (hparent : ∀ p ∈ parent, p < index)
    (child : Option Nat) : (w.note parent child).Fresh index := by
  refine ⟨fun k hk => ?_, fun k hk => ?_⟩
  · rw [decisions_note]
    exact h.decisions k hk
  · rw [lastChild_note, if_neg]
    · exact h.lastChild k hk
    · intro hp
      have := hparent k hp
      omega

/-- Behind the children of a node, what is noted is the number of the last one. -/
theorem Walked.below {child : Option Nat} (h : (w.note (some index) child).Walked w₁ (index + 1) hi s)
    (hlt : index < hi) : w.Walked w₁ index hi s := by
  refine ⟨h.state, fun k hk => ?_, fun k hk => ?_⟩
  · rw [h.decisions k (by omega), decisions_note]
  · rw [h.lastChild k (by omega), lastChild_note, if_neg]
    intro hk'
    cases hk'
    omega

/-- The number of the last child, if none was noted before. -/
theorem Walked.lastChild_below {child : Option Nat} (h : (w.note (some index) child).Walked w₁ (index + 1) hi s)
    (hnone : w.lastChild index = none) : w₁.lastChild index = child := by
  rw [h.lastChild index (by omega), lastChild_note, if_pos rfl, hnone, Option.or_none]

/-! ### Behind the children of a node -/

variable {n : Node} {place : NodePlace}

/-- **What the walk decides at the end of a block** is what is attached to the last node in it. -/
theorem written_endOfBlock (hlast : w.lastChild index = lastNumber (index + 1) n.children) :
    let w' := if n.kind == .block then w.endOfBlock n.span.stop index else w
    let out := settleBlock n.kind n.span.stop (writtenAll w.decisions (index + 1) (bareAll n.children)) w.toState
    w.Walked w' (index + 1) (index + n.size) out.2 ∧
      writtenAll w'.decisions (index + 1) (bareAll n.children) = out.1 := by
  have stays : w.Walked w (index + 1) (index + n.size) w.toState := ⟨rfl, fun _ _ => rfl, fun _ _ => rfl⟩
  unfold settleBlock leaveBlock
  cases n.kind == .block with
  | false => exact ⟨stays, rfl⟩
  | true =>
      cases hnumber : lastNumber (index + 1) n.children with
      | none =>
          have hend : w.endOfBlock n.span.stop index = w := by
            unfold endOfBlock
            rw [hlast, hnumber]
          rw [lastNumber_eq_none.mp hnumber, bareAll, writtenAll, hend]
          exact ⟨stays, rfl⟩
      | some last =>
          have hbounds := lastNumber_bounds hnumber
          have hsettles := settles_endOfBlock (hlast.trans hnumber) n.span.stop
          have hsome : (writtenAll w.decisions (index + 1) (bareAll n.children)).isEmpty = false := by
            cases hc : n.children with
            | nil =>
                rw [hc] at hnumber
                cases hnumber
            | cons c rest =>
                rw [bareAll, writtenAll]
                rfl
          rw [hsome]
          refine ⟨hsettles.walked (by omega) (by rw [Node.size_eq]; omega), ?_⟩
          exact writtenAll_attachToLast hnumber hsettles.others hsettles.decided (attached_foldl_addLate _ _)

/-- **What the walk decides when it leaves a node** is what is attached behind it and to the last node in it. -/
theorem written_leave (source : Array Char) (place : NodePlace)
    (hlast : w.lastChild index = lastNumber (index + 1) n.children)
    (htrailing : (w.decided index).trailing = none) :
    let w' := w.leave source n place index
    let out := Attaching.leave source place n.kind n.span.stop
      (writtenAll w.decisions (index + 1) (bareAll n.children)) w.toState
    w.Walked w' index (index + n.size) out.2 ∧ w'.decided index = (w.decided index).trailed out.1.2 ∧
      writtenAll w'.decisions (index + 1) (bareAll n.children) = out.1.1 := by
  obtain ⟨hblock, hwritten⟩ := written_endOfBlock hlast
  rw [leave_eq_settleBehind]
  unfold leave
  generalize (if n.kind == .block then w.endOfBlock n.span.stop index else w) = w₁ at hblock hwritten ⊢
  have hdecided : w₁.decided index = w.decided index := by
    unfold decided
    rw [hblock.decisions index (by omega)]
  have hbehind := settles_behind source n place index w₁ (by rw [hdecided]; exact htrailing)
  rw [hdecided, hblock.state] at hbehind
  have hsize := n.size_pos
  have hfirst : w.Walked w₁ index (index + n.size) _ := hblock.widen (Nat.le_succ index) (Nat.le_refl _)
  have hthen : w₁.Walked _ index (index + n.size) _ := hbehind.walked (Nat.le_refl _) (by omega)
  refine ⟨hfirst.trans hthen (Nat.le_refl _) (Nat.le_refl _), hbehind.decided, ?_⟩
  rw [← hwritten]
  exact Node.writtenAll_congr fun k hk _ => hbehind.others k (by omega)

/-! ### The walk -/

/-- A node gets what is decided before it and behind it. -/
theorem written_of_left (source : Array Char) (place : NodePlace) {claimed : Claim} {below : List Node}
    (hwalked : w₀.Walked w index (index + n.size) s) (hclaimed : w.decided index = ({} : Attachment).claimed claimed)
    (hlast : w.lastChild index = lastNumber (index + 1) n.children)
    (hbelow : writtenAll w.decisions (index + 1) (bareAll n.children) = below) :
    let w' := w.leave source n place index
    let out := Attaching.leave source place n.kind n.span.stop below s
    w₀.Walked w' index (index + n.size) out.2 ∧
      n.bare.written w'.decisions index =
        { n with
          children := out.1.1, doc := claimed.doc, leading := claimed.leading.map (·.attached)
          trailing := out.1.2.map (·.attached) } := by
  subst hbelow
  obtain ⟨hleft, hdecided, hwritten⟩ := written_leave source place hlast (by rw [hclaimed]; rfl)
  rw [hwalked.state, hclaimed] at hdecided
  rw [hwalked.state] at hleft hwritten
  refine ⟨hwalked.trans hleft (Nat.le_refl _) (Nat.le_refl _), ?_⟩
  unfold decided at hdecided
  rw [Node.written_eq, Node.attach_bare, Node.children_bare, hwritten, hdecided]
  rfl

theorem performAll_callsAt_late (source : Array Char) (place : NodePlace) (path : List Nat) (index : Nat)
    (parent : Option Nat) (h : n.startsAfterChildren = true) (w : Walker) :
    performAll (perform source) (callsAt place path index parent n) w =
      leave source n place index (claim source n place index (performAll (perform source)
        (callsAmong place n.kind path 0 (index + 1) index n.children) (w.note parent (some index)))) := by
  rw [callsAt_eq]
  simp only [performAll, List.foldl_cons, List.foldl_append, List.foldl_nil, perform, h, if_true]

theorem performAll_callsAt_early (source : Array Char) (place : NodePlace) (path : List Nat) (index : Nat)
    (parent : Option Nat) (h : n.startsAfterChildren = false) (w : Walker) :
    performAll (perform source) (callsAt place path index parent n) w =
      leave source n place index (performAll (perform source)
        (callsAmong place n.kind path 0 (index + 1) index n.children)
        (claim source n place index (w.note parent (some index)))) := by
  rw [callsAt_eq]
  simp only [performAll, List.foldl_cons, List.foldl_append, List.foldl_nil, perform, h, Bool.false_eq_true, if_false]

/-- The walker came to the end of nodes with one parent, the first of which has the number `index`, as the walk that
attaches comments did: what it decided for them is what was attached to them. -/
structure Mirrors (w w' : Walker) (index parent : Nat) (ns : List Node) (out : List Node × State) : Prop where
  walked : (w.note (some parent) (lastNumber index ns)).Walked w' index (index + sizeAll ns) out.2
  written : writtenAll w'.decisions index (bareAll ns) = out.1

/-- A node is done if its children are. -/
theorem walked_of_children (source : Array Char) (place : NodePlace) (path : List Nat) {parent : Option Nat}
    (hparent : ∀ p ∈ parent, p < index)
    (hchildren : ∀ w : Walker, w.Fresh (index + 1) →
      w.Mirrors (performAll (perform source) (callsAmong place n.kind path 0 (index + 1) index n.children) w)
        (index + 1) index n.children (nodes source place n.kind 0 n.children w.toState))
    (hfresh : w.Fresh index) :
    let w' := performAll (perform source) (callsAt place path index parent n) w
    (w.note parent (some index)).Walked w' index (index + n.size) (node source place n w.toState).2 ∧
      n.bare.written w'.decisions index = (node source place n w.toState).1 := by
  have hfresh₀ := hfresh.note hparent (some index)
  have hsize : index + 1 + sizeAll n.children = index + n.size := by
    rw [Node.size_eq]
    omega
  rw [← toState_note w parent (some index)]
  -- a node claims before or behind its children, and both times nothing has been decided for it before
  cases hlate : n.startsAfterChildren with
  | true =>
      rw [performAll_callsAt_late source place path index parent hlate]
      generalize w.note parent (some index) = w₀ at hfresh₀ ⊢
      obtain ⟨hwalked, hwritten⟩ := hchildren w₀ (hfresh₀.mono (Nat.le_succ index))
      rw [node_late source place hlate]
      generalize performAll (perform source) _ w₀ = w₁ at hwalked hwritten ⊢
      have hlast := hwalked.lastChild_below (hfresh₀.lastChild index (Nat.le_refl _))
      have hnew : w₁.decided index = {} := by
        rw [← hfresh₀.decided, decided, decided, hwalked.decisions index (by omega), decisions_note]
      have hclaim := settles_claim_of_new source n place hnew
      rw [hwalked.state] at hclaim
      refine written_of_left source place ?_ hclaim.decided (by rw [hclaim.lastChild, hlast]) ?_
      · rw [← hsize]
        exact (hwalked.below (by omega)).trans (hclaim.walked (Nat.le_refl _) (by omega)) (Nat.le_refl _)
          (Nat.le_refl _)
      · rw [← hwritten]
        exact Node.writtenAll_congr fun k hk _ => hclaim.others k (by omega)
  | false =>
      rw [performAll_callsAt_early source place path index parent hlate]
      generalize w.note parent (some index) = w₀ at hfresh₀ ⊢
      have hclaim := settles_claim_of_new source n place hfresh₀.decided
      rw [node_early source place hlate]
      generalize w₀.claim source n place index = w₁ at hclaim ⊢
      have hfirst := hclaim.walked (Nat.le_refl index) (Nat.lt_succ_self index)
      have hfresh₁ := hfresh₀.walked hfirst (Nat.le_succ index)
      obtain ⟨hwalked, hwritten⟩ := hchildren w₁ hfresh₁
      generalize performAll (perform source) _ w₁ = w₂ at hwalked hwritten ⊢
      rw [hclaim.state] at hwalked hwritten
      have hlast := hwalked.lastChild_below (by rw [hclaim.lastChild, hfresh₀.lastChild index (Nat.le_refl _)])
      refine written_of_left source place ?_ ?_ hlast hwritten
      · rw [← hsize]
        exact (hfirst.widen (Nat.le_refl _) (by omega)).trans (hwalked.below (by omega)) (Nat.le_refl _)
          (Nat.le_refl _)
      · rw [← hclaim.decided, decided, decided, hwalked.decisions index (by omega), decisions_note]

mutual

/-- **The two phases do to a node what the walk that attaches does to it.** -/
theorem walked_node (source : Array Char) (place : NodePlace) (path : List Nat) (index : Nat) (parent : Option Nat)
    (hparent : ∀ p ∈ parent, p < index) : (n : Node) → (w : Walker) → w.Fresh index →
    let w' := performAll (perform source) (callsAt place path index parent n) w
    (w.note parent (some index)).Walked w' index (index + n.size) (node source place n w.toState).2 ∧
      n.bare.written w'.decisions index = (node source place n w.toState).1
  | ⟨kind, _, children, _, _, _, _, _⟩, _, hfresh =>
      walked_of_children source place path hparent
        (walked_nodes source place kind path 0 (index + 1) index (Nat.lt_succ_self index) children) hfresh

theorem walked_nodes (source : Array Char) (place : NodePlace) (kind : NodeKind) (path : List Nat)
    (before index parent : Nat) (hparent : parent < index) : (ns : List Node) → (w : Walker) → w.Fresh index →
    w.Mirrors (performAll (perform source) (callsAmong place kind path before index parent ns) w) index parent ns
      (nodes source place kind before ns w.toState)
  | [], w, _ => by
      rw [callsAmong, nodes]
      refine ⟨?_, by rw [bareAll, writtenAll]; rfl⟩
      rw [lastNumber, note_none]
      exact ⟨rfl, fun _ _ => rfl, fun _ _ => rfl⟩
  | n :: rest, w, hfresh => by
      have hparent' : ∀ p ∈ some parent, p < index := by simpa using hparent
      have hsize := n.size_pos
      obtain ⟨hfirst, hwritten⟩ :=
        walked_node source (place.child kind before) (path ++ [before]) index (some parent) hparent' n w hfresh
      have hfresh' := (hfresh.note hparent' (some index)).walked hfirst (by omega)
      obtain ⟨hthen, hbehind⟩ :=
        walked_nodes source place kind path (before + 1) (index + n.size) parent (by omega) rest _ hfresh'
      rw [callsAmong, performAll_append]
      generalize performAll (perform source) (callsAt _ _ index (some parent) n) w = w₁
        at hfirst hwritten hthen hbehind ⊢
      generalize performAll (perform source) (callsAmong _ _ _ _ _ _ rest) w₁ = w₂ at hthen hbehind ⊢
      rw [hfirst.state] at hthen hbehind
      -- the siblings behind a node have greater numbers than all below it
      have hkeep : n.bare.written w₂.decisions index = n.bare.written w₁.decisions index := by
        apply Node.written_congr
        intro k _ hk
        rw [Node.size_bare] at hk
        rw [hthen.decisions k (.inl hk), decisions_note]
      rw [nodes_cons]
      refine ⟨?_, by rw [bareAll, Node.writtenAll_cons, Node.size_bare, hkeep, hwritten, hbehind]⟩
      rw [sizeAll, lastNumber_cons]
      refine ⟨hthen.state, ?_, ?_⟩
      · intro k hk
        rw [hthen.decisions k (by omega), decisions_note, hfirst.decisions k (by omega), decisions_note, decisions_note]
      · intro k hk
        rw [hthen.lastChild k (by omega), lastChild_note, lastChild_note, hfirst.lastChild k (by omega), lastChild_note]
        split
        · rw [Option.or_assoc]
        · rfl

end

end Walker

end Attaching

namespace Node

open Attaching (Call Walker walk performAll calls logged)

/-! ## Both phases -/

/-- The first phase: what a walk over the tree decides about the comments, and what they say about the file. -/
def decideComments (root : Node) (comments : List Comment) (source : List Char) (options : Options) (sink : Sink) :
    Walker × Option Doc.Info :=
  match Backlog.ofComments options.doc comments sink with
  | (backlog, sink) =>
    (walk (Walker.perform source.toArray) root { queue := backlog.reversed.reverse, sink }, backlog.fileInfo)

/-- The second phase: writes what was decided for each node, and then what is said about the file. -/
def writeComments (root : Node) (decided : Walker × Option Doc.Info) : Eventual (Node × Sink) :=
  (root.visit (writeNext decided.1.decisions) 0).map fun (_, tree, _) =>
    ({ tree with doc := decided.2.or tree.doc }, decided.1.sink)

/-- The tree with its comments, as far as the options ask for them, in two phases. -/
def attachInPhases (root : Node) (comments : List Comment) (source : List Char) (options : Options) (sink : Sink) :
    Eventual (Node × Sink) :=
  if options.comments == .none then Part.some (root, sink)
  else root.writeComments (root.decideComments comments source options sink)

theorem writeComments_eq (root : Node) (decided : Walker × Option Doc.Info) :
    root.writeComments decided =
      Part.some ({ root.written decided.1.decisions 0 with
        doc := decided.2.or (root.written decided.1.decisions 0).doc }, decided.1.sink) := by
  rw [writeComments, visit_writeNext, Part.map_some]

/-- **Deciding and then writing is attaching.** What the first phase decides about a tree is what is attached to it. -/
theorem writeComments_bare (root : Node) (comments : List Comment) (source : List Char) {options : Options}
    (h : (options.comments == .none) = false) (sink : Sink) :
    root.bare.writeComments (root.decideComments comments source options sink) =
      Part.some (root.attachComments comments source options sink) := by
  rw [writeComments_eq, attachComments, h]
  unfold decideComments
  obtain ⟨backlog, sink'⟩ := Backlog.ofComments options.doc comments sink
  have hfresh : ({ queue := backlog.reversed.reverse, sink := sink' } : Walker).Fresh 0 :=
    ⟨fun _ _ => rfl, fun _ _ => rfl⟩
  obtain ⟨hwalked, hwritten⟩ := Walker.walked_node source.toArray {} [] 0 none nofun root _ hfresh
  dsimp only
  rw [Attaching.walk_eq, Attaching.calls, hwritten]
  have hsink := congrArg Attaching.State.sink hwalked.state
  simp only [hsink]
  rfl

mutual

theorem bare_bare : (n : Node) → n.bare.bare = n.bare
  | ⟨kind, payload, children, span, flags, doc, leading, trailing⟩ => by
      rw [bare, bare, bareAll_bareAll children]

theorem bareAll_bareAll : (ns : List Node) → bareAll (bareAll ns) = bareAll ns
  | [] => by rw [bareAll, bareAll]
  | n :: rest => by rw [bareAll, bareAll, bare_bare n, bareAll_bareAll rest]

end

theorem attachInPhases_bare (root : Node) (comments : List Comment) (source : List Char) (options : Options)
    (sink : Sink) :
    root.bare.attachInPhases comments source options sink =
      Part.some (root.bare.attachComments comments source options sink) := by
  cases h : options.comments == .none with
  | true => simp [attachInPhases, attachComments, h]
  | false =>
      rw [attachInPhases, h, ← writeComments_bare root.bare comments source h, bare_bare]
      rfl

/-! ## All traversals -/

/-- **All traversals of a tree number its nodes in the same way.** The references of a tree name each of its nodes once,
in pre-order. In this order an iterator gives the nodes, and the tree is listed. In this order the nodes of the changed
tree are visited by a change of any kind, and those of the tree itself by one that leaves the children alone. A walk
enters the nodes in this order, each with its number in it, and leaves a node with the same number when all below it is
left. What was decided for a number is written to the node of this number therefore, and to decide about the comments
and to write them comes to the same as to attach them while the tree is walked. -/
theorem traversals_agree (root : Node) :
    (root.refs.map (·.node) = root.preorder ∧
      root.refs.Pairwise (fun r s => List.Lex (· < ·) r.path s.path) ∧
      ∀ r, r ∈ root.refs ↔ root.descend? r.path = some r.node) ∧
    ((Iteration.ofRoot root).toList = root.refs ∧ root.descendants = root.refs.map (·.node)) ∧
    (root.listing = String.join (root.refs.map Ref.line) ∧ root.render = root.listing) ∧
    (∀ (σ : Type) (f : Node → StateM σ Node) (s : σ),
      (∀ ways t u, (ways, t, u) ∈ root.visit f s ↔ Visited f [root] s [t] u ∧ ways = t.refs.map (·.path)) ∧
      root.visit (sparing f) s = Part.some (root.refs.map (·.path), rewrite f root s)) ∧
    ((logged root).toList.filterMap Call.entered? = root.refs.zipIdx ∧
      ((logged root).toList.filterMap Call.left?).Perm root.refs.zipIdx ∧
      (logged root).toList.Pairwise Call.Precedes ∧
      ∀ (W : Type) (perform : Call → W → W) (w : W),
        walk perform root w = performAll perform (logged root).toList w) ∧
    (∀ decisions : Nat → Option Attachment, ∃ tree,
      root.visit (writeNext decisions) 0 = Part.some (root.refs.map (·.path), tree, root.refs.length) ∧
      tree.refs.map alone =
        root.refs.zipIdx.map fun (r, k) => ⟨r.path, (r.node.attach (decisions k)).withChildren []⟩) ∧
    ∀ (comments : List Comment) (source : List Char) (options : Options) (sink : Sink),
      root.bare.attachInPhases comments source options sink =
        Part.some (root.bare.attachComments comments source options sink) := by
  have hlogged : (logged root).toList = Attaching.callsAt {} [] 0 none root := Attaching.logged_eq root
  refine ⟨?order, ?iteration, ?listing, ?visits, ?walk, ?writing, ?phases⟩
  case order => exact ⟨root.nodes_refsAt [], root.pairwise_refs, fun _ => mem_refs⟩
  case iteration => exact ⟨Iteration.toList_ofRoot root, root.descendants_eq⟩
  case listing => exact ⟨root.listing_eq, root.render_eq_listing⟩
  case visits =>
    intro σ f s
    exact ⟨fun _ _ _ => mem_visit, visit_sparing f root s⟩
  case walk =>
    refine ⟨?_, ?_, ?_, fun _ perform w => Attaching.walk_eq_logged perform root w⟩
    · rw [hlogged, Attaching.entered_callsAt, refs]
    · rw [hlogged]
      exact Attaching.left_callsAt {} [] 0 none root
    · rw [hlogged]
      exact Attaching.pairwise_callsAt {} [] 0 none root
  case writing =>
    intro decisions
    refine ⟨root.written decisions 0, ?_, alone_written decisions root⟩
    rw [visit_writeNext, refs, length_refsAt]
  case phases =>
    intro comments source options sink
    exact root.attachInPhases_bare comments source options sink

end Node

end EcmaScript
