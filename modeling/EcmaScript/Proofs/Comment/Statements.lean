import EcmaScript.Proofs.Comment.Script
import EcmaScript.Proofs.Layout.Script

/-!
# The comments inside a statement

A statement should keep the plain comments inside it. What the walk takes before it comes to a node lies
before the node, or behind other nodes with nothing but separators between (`leaves_node`); so a comment
inside a statement still waits when the walk comes to it, unless a node around the statement outgrows its
parts (`Visits.waits`). The parts of the statement may take the comment; of what they leave over, the
statement takes the plain comments up to the first documentation comment, and no further ones
(`Visit.taken_iff`).

## Contents

* `Before`, `Leaves`: what is taken on the way to a place.
* `leaves_node`, `leaves_nodes`: the walk over trees that follow the text.
* `Visits.waits`: what still waits when the walk comes to a node.
* `Visits.attached_statement`: which comments are attached to a statement.
-/

namespace EcmaScript

namespace Attaching

variable {source : Array Char} {n : Node} {place : NodePlace} {lo hi : Nat}
  {p : PendingComment} {queue before after : List PendingComment}

/-! ## What is taken on the way -/

/-- The comment ends before the place, or there are nothing but separators between it and something that
ends before the place. -/
def Before (source : Array Char) (lo : Nat) (p : PendingComment) : Prop :=
  p.stop ≤ lo ∨
    ∃ k ≤ lo, k ≤ p.comment.span.offset ∧ onlySeparators source k p.comment.span.offset = true

theorem Before.mono (h : Before source lo p) (hle : lo ≤ hi) : Before source hi p :=
  h.imp (Nat.le_trans · hle) fun ⟨k, hk, hrest⟩ => ⟨k, Nat.le_trans hk hle, hrest⟩

/-- Of the comments that wait at one time, those before a place need not wait at another time. -/
def Leaves (source : Array Char) (lo : Nat) (before after : List PendingComment) : Prop :=
  ∀ p ∈ before, p ∈ after ∨ Before source lo p

namespace Leaves

theorem refl (queue : List PendingComment) : Leaves source lo queue queue := fun _ hp => .inl hp

theorem trans (h : Leaves source lo before queue) (h' : Leaves source lo queue after) :
    Leaves source lo before after := fun p hp => (h p hp).elim (h' p) .inr

theorem mono (h : Leaves source lo before after) (hle : lo ≤ hi) : Leaves source hi before after :=
  fun p hp => (h p hp).imp_right (·.mono hle)

theorem dropWhile {f : PendingComment → Bool} (h : ∀ p, f p = true → Before source lo p)
    (queue : List PendingComment) : Leaves source lo queue (queue.dropWhile f) := by
  intro p hp
  rw [← List.takeWhile_append_dropWhile (p := f) (l := queue)] at hp
  exact (List.mem_append.mp hp).symm.imp_right fun hp => h p (List.mem_takeWhile_imp hp)

end Leaves

theorem leaves_claim (h : n.span.offset ≤ lo) (s : State) :
    Leaves source lo s.queue (claim source n place s).2.queue := by
  rw [queue_claim]
  exact .dropWhile (fun p hp => .inl (Nat.le_trans (of_decide_eq_true (Bool.and_eq_true_iff.mp hp).1) h)) _

theorem leaves_behindLine (ends : Bool) {stop : Nat} (h : stop ≤ lo) (queue : List PendingComment) :
    Leaves source lo queue (behindLine source ends stop queue) := by
  unfold behindLine
  split
  · cases queue with
    | nil => exact .refl _
    | cons p rest =>
        dsimp only [dropLine]
        split
        next hp =>
          simp only [Bool.and_eq_true, decide_eq_true_eq] at hp
          intro q hq
          obtain rfl | hq := List.mem_cons.mp hq
          · exact .inr (.inr ⟨stop, h, hp.1.2, hp.2⟩)
          · exact .inl hq
        next => exact .refl _
  · exact .refl _

/-- Leaving a node takes what ends before its end, and what follows on its line. -/
theorem Visit.leaves_final {v : Visit} (hk : v.node.kind ≠ .script) (h : v.node.span.stop ≤ lo) :
    Leaves source lo (v.leaving source).queue (v.final source).queue := by
  have hstop (p : PendingComment) {b : Bool} (hp : (b && decide (p.stop ≤ v.node.span.stop)) = true) :
      Before source lo p := .inl (Nat.le_trans (of_decide_eq_true (Bool.and_eq_true_iff.mp hp).2) h)
  have hblock : Leaves source lo (v.leaving source).queue (v.leftover source) := by
    unfold Visit.leftover behindBlock
    split
    · exact .dropWhile (fun p hp => .inl (Nat.le_trans (of_decide_eq_true hp) h)) _
    · exact .refl _
  have hstatement : Leaves source lo (v.leftover source)
      (behindStatement (v.place.isStatement v.node.kind) v.node.span.stop (v.leftover source)) := by
    unfold behindStatement
    split
    · exact .dropWhile (fun p hp => hstop p hp) _
    · exact .refl _
  rw [v.queue_final hk]
  exact ((hblock.trans hstatement).trans (.dropWhile (fun p hp => hstop p hp) _)).trans
    (leaves_behindLine _ h _)

mutual

/-- **What the walk takes at a node** lies before its end, or behind its end on the line. -/
theorem leaves_node {a : Arrangement} {lo hi : Nat} : (n : Node) → n.Laid a lo hi →
    n.kind ≠ .script → (place : NodePlace) → (s : State) →
    Leaves source hi s.queue (node source place n s).2.queue
  | ⟨kind, payload, children, span, flags, doc, leading, trailing⟩, h, hk, place, s => by
      let v : Visit := ⟨[], place, ⟨kind, payload, children, span, flags, doc, leading, trailing⟩, s, default⟩
      have hoffset : v.node.span.offset ≤ hi := Nat.le_trans (Nat.le_add_right _ _) h.fits.stop
      have hchildren : Leaves source hi (v.entered source).queue (v.walked source).queue :=
        (leaves_nodes children h.below h.shaped.script place kind 0 (v.entered source)).mono
          h.fits.innerStop_le
      have hentered : Leaves source hi s.queue (v.entered source).queue := by
        unfold Visit.entered
        split
        · exact .refl _
        · exact leaves_claim hoffset _
      have hleaving : Leaves source hi (v.walked source).queue (v.leaving source).queue := by
        unfold Visit.leaving
        split
        · exact leaves_claim hoffset _
        · exact .refl _
      exact ((hentered.trans hchildren).trans hleaving).trans (v.leaves_final hk h.fits.stop)

theorem leaves_nodes {a : Arrangement} {lo hi : Nat} : (ns : List Node) →
    Node.LaidAll a lo ns hi → (∀ n ∈ ns, n.kind ≠ .script) → (place : NodePlace) →
    (kind : NodeKind) → (index : Nat) → (s : State) →
    Leaves source hi s.queue (nodes source place kind index ns s).2.queue
  | [], _, _, place, kind, index, s => by
      rw [nodes]
      exact .refl _
  | n :: rest, h, hk, place, kind, index, s => by
      obtain ⟨next, -, hstop, hn, hrest⟩ := Node.laidAll_cons.mp h
      rw [nodes]
      exact ((leaves_node n hn (hk n List.mem_cons_self) (place.child kind index) s).mono hstop).trans
        (leaves_nodes rest hrest (fun m hm => hk m (List.mem_cons_of_mem n hm)) place kind (index + 1) _)

end

/-! ## What still waits -/

namespace Visit

/-- On the way to a child, a node that outgrows its parts takes comments before it, and other comments are
taken only if they are before the child. -/
theorem leaves_before {v : Visit} {a : Arrangement} {mid : Nat} {index : Nat} (h : v.node.Laid a lo hi)
    (hmid : Node.LaidAll v.node.kind.arrangement (v.node.innerStart lo) (v.node.children.take index) mid) :
    ∀ p ∈ v.state.queue, p ∈ (v.before source index).queue ∨ Before source mid p ∨
      (v.node.outgrows = true ∧ p.stop ≤ v.node.span.offset) := by
  intro p hp
  have hentered : p ∈ (v.entered source).queue ∨ Before source mid p ∨
      (v.node.outgrows = true ∧ p.stop ≤ v.node.span.offset) := by
    unfold entered
    split
    · exact .inl hp
    next hearly =>
      rw [queue_claim]
      rw [← List.takeWhile_append_dropWhile (p := v.node.claims v.place) (l := v.state.queue)] at hp
      refine (List.mem_append.mp hp).symm.imp_right fun hp => ?_
      have hclaims := List.mem_takeWhile_imp hp
      have hle := Node.le_offset_of_claims hclaims
      cases hgrows : v.node.outgrows with
      | true => exact .inr ⟨rfl, hle⟩
      | false =>
          obtain ⟨hcomma, haccess⟩ := Node.ordinary_of_early (Bool.eq_false_iff.mpr hearly) hgrows
          have hstart := hmid.le
          rw [Node.innerStart_of_ordinary (Node.length_pos_of_claims hclaims) hcomma haccess] at hstart
          exact .inl (.inl (by omega))
  obtain hwaits | htaken := hentered
  · have hscript : ∀ n ∈ v.node.children.take index, n.kind ≠ .script := fun n hn =>
      h.shaped.script n ((List.take_prefix index _).subset hn)
    exact (leaves_nodes _ hmid hscript v.place v.node.kind 0 (v.entered source) p hwaits).imp_right .inl
  · exact .inr htaken

end Visit

/-- How a visited node stands in the text beside its siblings. -/
def Visit.arrangement (v : Visit) : Arrangement := (v.place.parent.map NodeKind.arrangement).getD .plain

/-- What is known of a node to which a walk has come: it lies between the bounds, and, if it has a region
for itself, whatever does not wait any more is before it, unless a node around it has taken it too early. -/
structure Visit.Reached (source : Array Char) (v start : Visit) (lo hi : Nat) : Prop where
  laid : v.node.Laid v.arrangement lo hi
  script : v.place.parent.isSome = true → v.node.kind ≠ .script
  simple : v.arrangement = .shared → v.node.children = []
  inBlock : ∀ block ∈ v.above.head?, block.kind = .block → v.node.span.stop ≤ block.span.stop
  waits : v.arrangement ≠ .shared → ∀ p ∈ start.state.queue, p ∈ v.state.queue ∨ Before source lo p ∨
    ∃ a ∈ v.above, a.outgrows = true ∧ p.stop ≤ a.span.offset

/-- Whatever does not wait any more when the walk goes on to a child is before the child. -/
theorem Visit.Reached.child {start v : Visit} (h : v.Reached source start lo hi) {index : Nat}
    {child : Node} (hchild : v.node.children[index]? = some child)
    (hshared : v.node.kind.arrangement ≠ .shared) :
    ∃ mid next, child.Laid v.node.kind.arrangement mid next ∧ next ≤ v.node.innerStop hi ∧
      ∀ p ∈ start.state.queue, p ∈ (v.before source index).queue ∨ Before source mid p ∨
        ∃ a ∈ v.node :: v.above, a.outgrows = true ∧ p.stop ≤ a.span.offset := by
  obtain ⟨mid, next, hbefore, hlaid, hnext⟩ := h.laid.below.split hshared hchild
  have hparent : v.arrangement ≠ .shared := fun he => by
    rw [h.simple he] at hchild
    cases hchild
  refine ⟨mid, next, hlaid, hnext, fun p hp => ?_⟩
  have hlo : lo ≤ mid := Nat.le_trans (Node.le_innerStart _ _) hbefore.le
  obtain hw | hb | ⟨a, ha, htaken⟩ := h.waits hparent p hp
  · obtain hw | hb | htaken := v.leaves_before h.laid hbefore p hw
    · exact .inl hw
    · exact .inr (.inl hb)
    · exact .inr (.inr ⟨v.node, List.mem_cons_self, htaken⟩)
  · exact .inr (.inl (hb.mono hlo))
  · exact .inr (.inr ⟨a, List.mem_cons_of_mem _ ha, htaken⟩)

/-- **What still waits when the walk comes to a node.** -/
theorem Visits.reached {start v : Visit} (hstart : start.node.Laid .plain lo hi)
    (hplace : start.place.parent = none) (habove : start.above = []) (h : Visits source start v) :
    ∃ lo hi, v.Reached source start lo hi := by
  induction h with
  | start =>
      have hplain : start.arrangement = .plain := by
        unfold Visit.arrangement
        rw [hplace]
        rfl
      refine ⟨lo, hi, hplain ▸ hstart, ?_, ?_, ?_, fun _ p hp => .inl hp⟩
      · rw [hplace]
        nofun
      · rw [hplain]
        nofun
      · rw [habove]
        nofun
  | @step u w hu hstep ih =>
      obtain ⟨lo, hi, hreached⟩ := ih
      obtain ⟨hchild, -⟩ := hstep
      rename_i index child out
      have hmem := List.mem_of_getElem? hchild
      have hscript := hreached.laid.shaped.script child hmem
      have hsimple := fun he => hreached.laid.shaped.simple he child hmem
      have hstop {next : Nat} (hnext : next ≤ u.node.innerStop hi) (hk : u.node.kind = .block) :
          next ≤ u.node.span.stop :=
        Nat.le_trans hnext (Nat.le_of_eq (Node.innerStop_of_block hk hmem hi))
      by_cases hshared : u.node.kind.arrangement = .shared
      · obtain ⟨mid, next, -, hnext, hlaid⟩ := hreached.laid.below.getElem? hchild
        refine ⟨mid, next, hlaid, fun _ => hscript, hsimple, fun block hb hk => ?_,
          fun hne => absurd hshared hne⟩
        cases hb
        exact Nat.le_trans hlaid.fits.stop (hstop hnext hk)
      · obtain ⟨mid, next, hlaid, hnext, hwaits⟩ := hreached.child hchild hshared
        refine ⟨mid, next, hlaid, fun _ => hscript, hsimple, fun block hb hk => ?_, fun _ => hwaits⟩
        cases hb
        exact Nat.le_trans hlaid.fits.stop (hstop hnext hk)

/-! ## What a statement takes -/

theorem onlySeparators_of_le {k start stop : Nat} (h : onlySeparators source k stop = true)
    (hk : k ≤ start) : onlySeparators source start stop = true := by
  unfold onlySeparators slice at *
  rw [Array.all_eq_true] at h ⊢
  intro i hi
  rw [Array.size_extract] at hi
  have hi' : start - k + i < (source.extract k stop).size := by
    rw [Array.size_extract]
    omega
  have := h (start - k + i) hi'
  rw [Array.getElem_extract] at this ⊢
  simpa only [show k + (start - k + i) = start + i by omega] using this

section Statement

variable {stop : Nat}

/-- A plain comment inside a statement waits behind a documentation comment, or the statement takes it. -/
theorem mem_behindStatement (hs : PendingComment.Ascending queue) (hp : p ∈ queue)
    (hplain : p.isPlain = true) (hstop : p.stop ≤ stop) :
    p ∈ behindStatement true stop queue ↔
      ∃ q ∈ queue, q.stop ≤ p.comment.span.offset ∧ q.isPlain = false := by
  show p ∈ queue.dropWhile (fun q => q.isPlain && decide (q.stop ≤ stop)) ↔ _
  generalize hf : (fun q : PendingComment => q.isPlain && decide (q.stop ≤ stop)) = f
  have hf (q : PendingComment) : f q = (q.isPlain && decide (q.stop ≤ stop)) := by rw [← hf]
  induction queue with
  | nil => cases hp
  | cons x rest ih =>
      have hrest : PendingComment.Ascending rest := hs.suffix (List.suffix_cons x rest)
      have hapart := (List.pairwise_cons.mp hs.apart).1
      have hlong := hs.long p hp
      by_cases hx : f x = true
      · rw [List.dropWhile_cons_of_pos hx]
        obtain ⟨hxplain, -⟩ := Bool.and_eq_true_iff.mp (hf x ▸ hx)
        obtain rfl | hp := List.mem_cons.mp hp
        · -- nothing that waits ends before the first comment
          refine iff_of_false (fun hm => ?_) fun ⟨q, hq, hle, hdoc⟩ => ?_
          · have := hapart p ((List.dropWhile_suffix _).subset hm)
            omega
          · obtain rfl | hq := List.mem_cons.mp hq
            · rw [hxplain] at hdoc
              cases hdoc
            · have := hapart q hq
              have := hrest.long q hq
              omega
        · refine (ih hrest hp).trans
            ⟨fun ⟨q, hq, h⟩ => ⟨q, List.mem_cons_of_mem x hq, h⟩, fun ⟨q, hq, hle, hdoc⟩ => ?_⟩
          obtain rfl | hq := List.mem_cons.mp hq
          · rw [hxplain] at hdoc
            cases hdoc
          · exact ⟨q, hq, hle, hdoc⟩
      · rw [List.dropWhile_cons_of_neg hx]
        rw [hf x] at hx
        obtain rfl | hm := List.mem_cons.mp hp
        · exact absurd (Bool.and_eq_true_iff.mpr ⟨hplain, decide_eq_true hstop⟩) hx
        · have hle := hapart p hm
          refine iff_of_true hp ⟨x, List.mem_cons_self, hle, Bool.eq_false_iff.mpr fun hxplain => hx ?_⟩
          exact Bool.and_eq_true_iff.mpr ⟨hxplain, decide_eq_true (by omega)⟩

theorem mem_dropWhile_of_not {f : PendingComment → Bool} (h : f p = false) :
    p ∈ queue.dropWhile f ↔ p ∈ queue := by
  refine ⟨fun hp => (List.dropWhile_suffix _).subset hp, fun hp => ?_⟩
  rw [← List.takeWhile_append_dropWhile (p := f) (l := queue)] at hp
  refine (List.mem_append.mp hp).resolve_left fun hp => ?_
  rw [List.mem_takeWhile_imp hp] at h
  cases h

theorem mem_behindLine (h : p.comment.span.offset < stop) (ends : Bool) :
    p ∈ behindLine source ends stop queue ↔ p ∈ queue := by
  unfold behindLine
  split
  · cases queue with
    | nil => exact Iff.rfl
    | cons x rest =>
        dsimp only [dropLine]
        split
        next hx =>
          simp only [Bool.and_eq_true, decide_eq_true_eq] at hx
          refine ⟨fun hp => List.mem_cons_of_mem x hp, fun hp => (List.mem_cons.mp hp).resolve_left ?_⟩
          rintro rfl
          omega
        next => exact Iff.rfl
  · exact Iff.rfl

end Statement

namespace Visit

variable {v start : Visit}

/-- **What a statement takes of the comments inside it**: all plain ones that its parts have not left over
behind a documentation comment. -/
theorem taken_iff (hs : PendingComment.Ascending v.state.queue)
    (hstatement : v.place.isStatement v.node.kind = true) (hk : v.node.kind ≠ .script)
    (hplain : p.isPlain = true) (hstop : p.stop ≤ v.node.span.stop) (hp : p ∈ v.state.queue) :
    p ∉ (v.final source).queue ↔
      ∀ q ∈ v.leftover source, q.stop ≤ p.comment.span.offset → q.isPlain = true := by
  have hsuffix : v.leftover source <:+ v.state.queue :=
    v.suffix_leftover.trans (v.suffix_leaving.trans v.suffix_walked)
  have hlong := hs.long p hp
  have hfinal : p ∈ (v.final source).queue ↔
      p ∈ behindStatement true v.node.span.stop (v.leftover source) := by
    rw [v.queue_final hk, hstatement, mem_behindLine (by omega),
      mem_dropWhile_of_not (by rw [hplain]; rfl)]
  rw [hfinal]
  have hleftover := hs.suffix hsuffix
  obtain ⟨taken, htaken⟩ := hsuffix
  by_cases hleft : p ∈ v.leftover source
  · rw [mem_behindStatement hleftover hleft hplain hstop]
    simp
  · refine iff_of_true (fun hm => hleft ((behindStatement_suffix _ _ _).subset hm)) fun q hq hle => ?_
    -- the comments that are left over stand behind one that is not
    rw [← htaken] at hp hs
    have hp := (List.mem_append.mp hp).resolve_right hleft
    have := (List.pairwise_append.mp hs.apart).2.2 p hp q hq
    have := hs.long q (List.mem_append_right _ hq)
    omega

/-- The node is the last one in a block, which leaves to it the comments at its end. -/
def EndsBlock (v : Visit) : Prop :=
  ∃ block ∈ v.above.head?, block.kind = .block ∧ v.place.index + 1 = block.children.length

theorem endsBlock_of_late (h : p ∈ v.late source) : v.EndsBlock := by
  unfold late at h
  split at h
  next block rest habove =>
    split at h
    next hlast =>
      refine ⟨block, ?_, hlast⟩
      rw [habove]
      rfl
    next => cases h
  next => cases h

theorem mem_late (hs : PendingComment.Ascending (v.final source).queue) (hends : v.EndsBlock)
    (hblock : ∀ block ∈ v.above.head?, block.kind = .block → p.stop ≤ block.span.stop)
    (hplain : p.isPlain = true) (hp : p ∈ (v.final source).queue) : p ∈ v.late source := by
  obtain ⟨block, hhead, hlast⟩ := hends
  obtain ⟨rest, habove⟩ := List.head?_eq_some_iff.mp hhead
  have hstop := hblock block hhead hlast.1
  unfold late
  rw [habove]
  dsimp only
  rw [if_pos hlast]
  refine List.mem_filter.mpr ⟨?_, hplain⟩
  rw [← List.takeWhile_append_dropWhile (p := fun q => decide (q.stop ≤ block.span.stop))
    (l := (v.final source).queue)] at hp
  refine (List.mem_append.mp hp).resolve_right fun hp => ?_
  exact absurd hstop (Nat.not_le.mpr (hs.lt_of_dropWhile hp))

/-- What the walk takes at a node, and what the end of the block around it leaves to it, is dealt out to the
tree that stands in its place. -/
theorem Made.deals (h : v.Made source) :
    ∃ taken, v.state.queue = taken ++ (v.final source).queue ∧
      Deals v.out.preorder (plain taken ++ (v.late source).map (·.comment)) := by
  obtain ⟨taken, hqueue, hdeals, -⟩ := takes_node source v.place v.node v.state
  refine ⟨taken, hqueue, ?_⟩
  rw [h, Node.preorder_eq]
  rw [Node.preorder_eq] at hdeals
  exact hdeals.merge _

end Visit

/-- **Which comments are attached to a statement.** A plain comment inside a statement is attached to it or
to something in it, if the statement is the last one in a block or no documentation comment waits before the
comment when the parts of the statement have been walked; and else it is not. The comment must not be behind
separators at the start of the statement, nor may a node around the statement outgrow its parts so far. -/
theorem Visits.attached_statement {start v : Visit} (hlaid : start.node.Laid .plain lo hi)
    (hplace : start.place.parent = none) (habove : start.above = [])
    (hs : PendingComment.Ascending start.state.queue)
    (hstart : start.out.children = (start.result source).children) (h : Visits source start v)
    (hstatement : v.place.isStatement v.node.kind = true) :
    ∃ cs, Deals v.out.preorder cs ∧ ∀ p ∈ start.state.queue, p.isPlain = true →
      v.node.span.offset ≤ p.comment.span.offset → p.stop ≤ v.node.span.stop →
      onlySeparators source v.node.span.offset p.comment.span.offset = false →
      (∀ a ∈ v.above, a.outgrows = true → a.span.offset < p.stop) →
      (p.comment ∈ cs ↔ v.EndsBlock ∨
        ∀ q ∈ v.leftover source, q.stop ≤ p.comment.span.offset → q.isPlain = true) := by
  obtain ⟨lo, hi, hreached⟩ := h.reached hlaid hplace habove
  obtain ⟨kind, hparent, hplain⟩ : ∃ kind, v.place.parent = some kind ∧ kind.arrangement = .plain := by
    unfold NodePlace.isStatement at hstatement
    split at hstatement
    all_goals first
      | exact ⟨_, ‹_›, rfl⟩
      | simp at hstatement
  have hscript : v.node.kind ≠ .script := hreached.script (by rw [hparent]; rfl)
  have hmade : v.Made source := by
    cases h with
    | start =>
        rw [hplace] at hparent
        cases hparent
    | step hu hstep => exact hstep.made (hu.children_out hstart)
  have hqueue := hs.suffix h.suffix
  obtain ⟨taken, htaken, hdeals⟩ := hmade.deals
  have harrangement : v.arrangement = .plain := by
    unfold Visit.arrangement
    rw [hparent]
    exact hplain
  refine ⟨_, hdeals, fun p hp hplain hoffset hstop hbehind hinner => ?_⟩
  have hlong := hs.long p hp
  have hwaits : p ∈ v.state.queue := by
    have hlo : lo ≤ v.node.span.offset := by
      refine hreached.laid.fits.start ?_ ?_
      · unfold Span.stop at hstop
        unfold PendingComment.stop Span.stop at *
        omega
      · rw [harrangement]
        nofun
    obtain hw | (hbefore | ⟨k, hk, -, hseparators⟩) | ⟨a, ha, hgrows, hle⟩ :=
      hreached.waits (by rw [harrangement]; nofun) p hp
    · exact hw
    · omega
    · rw [onlySeparators_of_le hseparators (Nat.le_trans hk hlo)] at hbehind
      cases hbehind
    · exact absurd hle (Nat.not_le.mpr (hinner a ha hgrows))
  have htakes : p ∉ (v.final source).queue ↔
      ∀ q ∈ v.leftover source, q.stop ≤ p.comment.span.offset → q.isPlain = true :=
    Visit.taken_iff hqueue hstatement hscript hplain hstop hwaits
  rw [htaken] at hqueue hwaits
  have hfinal : PendingComment.Ascending (v.final source).queue := hqueue.suffix (List.suffix_append _ _)
  have hmem : p.comment ∈ plain taken ↔ p ∉ (v.final source).queue := by
    refine mem_plain.trans ⟨fun ⟨q, hq, _, he⟩ hf => ?_, fun hf => ?_⟩
    · have hle := (List.pairwise_append.mp hqueue.apart).2.2 q hq p hf
      have hlong := hqueue.long q (List.mem_append_left _ hq)
      rw [he] at hlong
      omega
    · exact ⟨p, (List.mem_append.mp hwaits).resolve_right hf, hplain, rfl⟩
  rw [List.mem_append, hmem, htakes]
  constructor
  · rintro (hall | hlate)
    · exact .inr hall
    · obtain ⟨q, hq, -⟩ := List.mem_map.mp hlate
      exact .inl (Visit.endsBlock_of_late hq)
  · rintro (hends | hall)
    · by_cases hf : p ∈ (v.final source).queue
      · refine .inr (List.mem_map_of_mem (Visit.mem_late hfinal hends (fun block hb hk => ?_) hplain hf))
        exact Nat.le_trans hstop (hreached.inBlock block hb hk)
      · exact .inl (htakes.mp hf)
    · exact .inl hall

end Attaching

/-! ## The whole parse -/

open Attaching (Visit Visits onlySeparators)

/-- Lists of statements are the children of these nodes, and a module holds one in its body. -/
def NodeKind.holdsStatements : NodeKind → Bool
  | script | moduleBody | block => true
  | _ => false

theorem NodePlace.isStatement_of_holdsStatements {place : NodePlace} {parent kind : NodeKind}
    (hparent : place.parent = some parent) (h : parent.holdsStatements = true)
    (hkind : kind ≠ .moduleBody) : place.isStatement kind = true := by
  unfold isStatement
  rw [hparent, bne_iff_ne.mpr hkind, Bool.true_and]
  unfold NodeKind.holdsStatements at h
  split at h
  case h_4 => cases h
  all_goals rfl

/-- **Which comments a statement keeps.** In the tree of a script whose comments are all asked for, a
statement and what is in it have been dealt comments of the source. A plain comment inside the statement is
among them if and only if the statement is the last one in a block, or no documentation comment waits before
the comment when the walk has been over the parts of the statement. This is said of comments that do not
only have separators before them in the statement, and of statements around which no node has taken the
comment before it comes to its parts. -/
theorem parse_statement_comments (name source : String) (o : Options) (ho : o.comments = .all) {root : Node}
    {s : Script} (hroot : ((Script.ofText name source o).readAll source.length).root? = (some root, s)) :
    let chars := source.toList.toArray
    let start := Visit.ofScript source o root s
    (∀ tree ∈ (parse name source o).root, tree = start.out) ∧
      ∀ n ∈ start.out.preorder, n.kind.holdsStatements = true →
        ∀ index statement, n.children[index]? = some statement → statement.kind ≠ .moduleBody →
        ∃ v, Visits chars start v ∧ v.out = statement ∧
          ∃ cs, Deals statement.preorder cs ∧
            ∀ c ∈ s.grammar.lexer.comments.toList, c.isPlain = true →
              statement.span.offset ≤ c.span.offset → c.span.stop ≤ statement.span.stop →
              onlySeparators chars statement.span.offset c.span.offset = false →
              (∀ a ∈ start.out.preorder, a.outgrows = true → statement ∈ a.preorder → a.span.offset < c.span.stop) →
              (c ∈ cs ↔ (n.kind = .block ∧ index + 1 = n.children.length) ∨
                ∀ q ∈ v.leftover chars, q.stop ≤ c.span.offset → q.isPlain = true) := by
  intro chars start
  have hlaid : root.Laid .plain 0 source.length := Script.laid_ofText name source o (by rw [hroot])
  refine ⟨Visit.parse_root_ofScript hroot, fun n hn hkind index statement hstatement hmodule => ?_⟩
  have hchildren : start.out.children = (start.result chars).children :=
    Visit.children_ofScript (by rw [ho]; nofun)
  obtain ⟨u, v, hu, rfl, hstep, rfl, rfl⟩ := Visits.exists_child hchildren hn hstatement
  have hv : Visits chars start v := hu.step hstep
  have hkindU := Node.kind_eq_of_bare (hu.bare_out Visit.bare_ofScript hchildren)
  have hkindV := Node.kind_eq_of_bare (hv.bare_out Visit.bare_ofScript hchildren)
  have hspan := Node.span_eq_of_bare (hv.bare_out Visit.bare_ofScript hchildren)
  obtain ⟨hparent, habove⟩ : v.place.parent = some u.node.kind ∧ v.above.head? = some u.node := by
    obtain ⟨-, -⟩ := hstep
    exact ⟨rfl, rfl⟩
  have hplace := NodePlace.isStatement_of_holdsStatements hparent (hkindU ▸ hkind) (hkindV ▸ hmodule)
  have hends : v.EndsBlock ↔ u.out.kind = .block ∧ v.place.index + 1 = u.out.children.length := by
    unfold Visit.EndsBlock
    rw [habove, hkindU, hu.length_out hchildren]
    simp
  obtain ⟨cs, hdeals, hcs⟩ := hv.attached_statement hlaid rfl rfl (Visit.ascending_ofScript hroot) hchildren
    hplace
  refine ⟨v, hv, rfl, cs, hdeals, fun c hc hplain hoffset hstop hbehind hinner => ?_⟩
  obtain ⟨p, hp, hpplain, rfl⟩ : ∃ p ∈ (Visit.ofScript source o root s).state.queue,
      p.isPlain = true ∧ p.comment = c := Visit.exists_mem_ofScript ho hc hplain
  rw [hspan] at hoffset hstop hbehind
  have habove : ∀ a ∈ v.above, a.outgrows = true → a.span.offset < p.stop := by
    intro a ha hgrows
    obtain ⟨m, hm, he, hin⟩ := (hv.exists_around Visit.bare_ofScript rfl hchildren).2 a ha
    rw [← Node.span_eq_of_bare he]
    exact hinner m hm (by rw [← Node.outgrows_bare, he, Node.outgrows_bare, hgrows]) hin
  rw [hcs p hp hpplain hoffset hstop hbehind habove, hends]

/-- In a block the last statement keeps a comment behind documentation. -/
theorem parse_statement_comments_block :
    let source := "\x7b f(/** @const */ /*b*/); \x7d g();"
    let o : Options := { comments := .all }
    let script := (Script.ofText "a.js" source o).readAll source.length
    let comment : Comment := { kind := .block, text := "/*b*/", span := ⟨1, 18, 18, 5⟩ }
    ∃ root s, script.root? = (some root, s) ∧ comment ∈ s.grammar.lexer.comments.toList ∧
      ∃ block statement cs, block ∈ (Visit.ofScript source o root s).out.preorder ∧ block.kind = .block ∧
        block.children[0]? = some statement ∧ Deals statement.preorder cs ∧ comment ∈ cs := by
  intro source o script comment
  -- what there is to compute is asked for at once, so that the source is read once
  obtain ⟨root, hroot, hcomment, hgrows, block, hblock, statement, hstatement, hkind, hlast, hmodule, hoffset,
      hstop, hbehind⟩ :
      ∃ root ∈ script.root?.1, comment ∈ script.root?.2.grammar.lexer.comments.toList ∧
        (∀ a ∈ (Visit.ofScript source o root script.root?.2).out.preorder, a.outgrows = false) ∧
        ∃ block ∈ (Visit.ofScript source o root script.root?.2).out.children.head?,
          ∃ statement ∈ block.children.head?,
            block.kind = .block ∧ 0 + 1 = block.children.length ∧ statement.kind ≠ .moduleBody ∧
            statement.span.offset ≤ comment.span.offset ∧ comment.span.stop ≤ statement.span.stop ∧
            onlySeparators source.toList.toArray statement.span.offset comment.span.offset = false := by
    decide +kernel
  have hscript := Script.root?_eq_of_some hroot
  have hmem : block ∈ (Visit.ofScript source o root script.root?.2).out.preorder :=
    Node.mem_preorder_of_child (List.mem_of_mem_head? hblock) _ (Node.self_mem_preorder _)
  have hfirst : block.children[0]? = some statement := List.head?_eq_getElem?.symm.trans hstatement
  obtain ⟨v, -, -, cs, hdeals, hcs⟩ := (parse_statement_comments "a.js" source o rfl hscript).2 block hmem
    (by rw [hkind]; rfl) 0 statement hfirst hmodule
  refine ⟨root, _, hscript, hcomment, block, statement, cs, hmem, hkind, hfirst, hdeals, ?_⟩
  refine (hcs comment hcomment rfl hoffset hstop hbehind ?_).mpr (.inl ⟨hkind, hlast⟩)
  intro a ha h
  rw [hgrows a ha] at h
  cases h

/-- A comment behind documentation in the arguments of a call comes before the next statement: nothing in
the first statement reaches to it, and the second one has it. -/
theorem statement_comments_parse_call :
    let result := parse "a.js" "f(/*a*/ /** @const */ /*b*/);\ng();" { comments := .all }
    ∃ tree first second c, result.root = some tree ∧ tree.kind = .script ∧
      tree.children[0]? = some first ∧ tree.children[1]? = some second ∧ c ∈ result.comments ∧ c.isPlain = true ∧
      first.span.offset ≤ c.span.offset ∧ c.span.stop ≤ first.span.stop ∧
      (∀ n ∈ first.preorder, ∀ a ∈ n.leading.toList ++ n.trailing.toList, a.span.stop ≤ c.span.offset) ∧
      second.leading.map (·.span) = some c.span := by
  intro result
  obtain ⟨tree, htree, first, hfirst, second, hsecond, c, hc, hkind, hall⟩ :
      ∃ tree ∈ result.root, ∃ first ∈ tree.children[0]?, ∃ second ∈ tree.children[1]?, ∃ c ∈ result.comments,
        tree.kind = .script ∧ c.isPlain = true ∧
        first.span.offset ≤ c.span.offset ∧ c.span.stop ≤ first.span.stop ∧
        (∀ n ∈ first.preorder, ∀ a ∈ n.leading.toList ++ n.trailing.toList, a.span.stop ≤ c.span.offset) ∧
        second.leading.map (·.span) = some c.span := by
    decide +kernel
  exact ⟨tree, first, second, c, htree, hkind, hfirst, hsecond, hc, hall⟩

end EcmaScript
