import EcmaScript.Proofs.Comment.Script
import EcmaScript.Proofs.Layout.Script

/-!
# Documentation stays in its expression

A documentation comment inside a construct should not be attached to what is around the construct. A node
that claims before its children takes comments that end before it, and none of its parts does
(`Visit.owner_early`). A property access claims behind its receiver; by then the receiver has taken or
dropped whatever stands before one of its own parts (`swept_node`), so what is left stands behind all of them
(`Visit.owner_late`). The exceptions are the nodes that claim before their children although they stand
behind some of them: comma nodes and accesses in parentheses (`Node.outgrows`).

## Contents

* `Node.Encloses`: a comment strictly inside a tree.
* `Swept`, `swept_node`: the walk over an expression leaves no comment before one of its parts.
* `Visits.owner_outside`: where the comment of a node lies.
-/

namespace EcmaScript

namespace Node

/-- The comment lies strictly inside the tree: something of some length ends before it, and something of
some length starts behind it. -/
def Encloses (n : Node) (c : Comment) : Prop :=
  (∃ m ∈ n.preorder, 0 < m.span.length ∧ m.span.stop ≤ c.span.offset) ∧
    ∃ m ∈ n.preorder, 0 < m.span.length ∧ c.span.stop ≤ m.span.offset

theorem bareAll_eq_map (ns : List Node) : bareAll ns = ns.map bare := by
  induction ns with
  | nil => rfl
  | cons n rest ih => rw [bareAll, ih, List.map_cons]

mutual

theorem spans_preorder_bare : (n : Node) → n.bare.preorder.map (·.span) = n.preorder.map (·.span)
  | ⟨kind, payload, children, span, flags, doc, leading, trailing⟩ => by
      rw [bare, preorder, preorder, List.map_cons, List.map_cons, spans_preorderAll_bare children]

theorem spans_preorderAll_bare :
    (ns : List Node) → (preorderAll (bareAll ns)).map (·.span) = (preorderAll ns).map (·.span)
  | [] => by rw [bareAll]
  | n :: rest => by
      rw [bareAll, preorderAll, preorderAll, List.map_append, List.map_append, spans_preorder_bare n,
        spans_preorderAll_bare rest]

end

instance (n : Node) (c : Comment) : Decidable (n.Encloses c) :=
  inferInstanceAs (Decidable (_ ∧ _))

/-- Most nodes take whatever comes before them. -/
theorem accepts_of_kind {n : Node} (hlen : 0 < n.span.length) (hlist : n.kind.needsList = false)
    (hdefault : n.kind ≠ .defaultValue) (hkey : n.kind ≠ .stringKey) (place : NodePlace) :
    n.docPolicy place = .accept ∧ n.takesPlain place = true := by
  have hne : n.span.length ≠ 0 := Nat.pos_iff_ne_zero.mp hlen
  unfold docPolicy takesPlain
  rw [if_neg hne, if_neg hne]
  constructor
  · split
    all_goals first
      | rfl
      | simp_all [NodeKind.needsList]
  · split
    all_goals first
      | rfl
      | simp_all [NodeKind.needsList]

/-- What a tree encloses does not depend on the comments in it. -/
theorem encloses_congr {n m : Node} (h : n.bare = m.bare) (c : Comment) : n.Encloses c ↔ m.Encloses c := by
  have hspans : n.preorder.map (·.span) = m.preorder.map (·.span) := by
    rw [← spans_preorder_bare n, h, spans_preorder_bare]
  have hany (p : Span → Prop) : (∃ k ∈ n.preorder, p k.span) ↔ ∃ k ∈ m.preorder, p k.span := by
    have hmem (n : Node) : (∃ k ∈ n.preorder, p k.span) ↔ ∃ x ∈ n.preorder.map (·.span), p x := by
      simp only [List.mem_map, exists_exists_and_eq_and]
    rw [hmem, hmem, hspans]
  exact and_congr (hany fun x => 0 < x.length ∧ x.stop ≤ c.span.offset)
    (hany fun x => 0 < x.length ∧ c.span.stop ≤ x.offset)

theorem exists_mem_of_bareAll {ns ms : List Node} (h : bareAll ns = bareAll ms) {n : Node} (hn : n ∈ ns) :
    ∃ m ∈ ms, n.bare = m.bare := by
  rw [bareAll_eq_map, bareAll_eq_map] at h
  obtain ⟨m, hm, he⟩ := List.mem_map.mp (h ▸ List.mem_map_of_mem hn)
  exact ⟨m, hm, he.symm⟩

theorem length_pos_of_accept {n : Node} {place : NodePlace} (h : n.docPolicy place = .accept) :
    0 < n.span.length := by
  refine Nat.pos_iff_ne_zero.mpr fun h0 => ?_
  unfold docPolicy at h
  rw [if_pos h0] at h
  cases h

theorem isAccess_of_startsAfterChildren {n : Node} (h : n.startsAfterChildren = true) :
    n.isAccess = true := (Bool.and_eq_true_iff.mp h).1

end Node

namespace Attaching

variable {source : Array Char} {n : Node} {place : NodePlace} {s : State}

/-! ## Sweeping -/

/-- No comment that waits ends before one of the nodes. -/
def Swept (ns : List Node) (s : State) : Prop :=
  ∀ m ∈ ns, 0 < m.span.length → ∀ p ∈ s.queue, m.span.offset < p.stop

theorem Swept.suffix {ns : List Node} {t : State} (h : Swept ns s) (ht : t.queue <:+ s.queue) :
    Swept ns t := fun m hm hlen p hp => h m hm hlen p (ht.subset hp)

/-- A node that takes whatever comes before it leaves nothing there. -/
theorem lt_of_claim (hs : PendingComment.Ascending s.queue) (hdoc : n.docPolicy place = .accept)
    (hplain : n.takesPlain place = true) {p : PendingComment}
    (hp : p ∈ (claim source n place s).2.queue) : n.span.offset < p.stop := by
  have hclaims : n.claims place = fun q => decide (q.stop ≤ n.span.offset) := by
    funext q
    unfold Node.claims
    rw [hdoc, hplain]
    cases q.isPlain <;> exact Bool.and_true _
  rw [queue_claim, hclaims] at hp
  exact hs.lt_of_dropWhile hp

/-- A node that no list of statements holds leaves nothing before it, if its walk has left nothing before its
parts: it takes what is there, or one of its parts does. -/
theorem Visit.lt_of_final {v : Visit} {a : Arrangement} {lo hi : Nat}
    (h : v.node.Laid a lo hi) (hlen : 0 < v.node.span.length)
    (hlist : v.node.kind.needsList = false) (hs : PendingComment.Ascending v.state.queue)
    (hbelow : Swept (Node.preorderAll v.node.children) (v.walked source)) :
    ∀ p ∈ (v.final source).queue, v.node.span.offset < p.stop := by
  have hscript : v.node.kind ≠ .script := fun he => by rw [he] at hlist; cases hlist
  have hleft : (v.final source).queue <:+ (v.leaving source).queue :=
    (v.suffix_final hscript).trans v.suffix_leftover
  intro p hp
  by_cases hlast : v.node.kind = .defaultValue ∨ v.node.kind = .stringKey
  · obtain ⟨m, hm, hlong, hle⟩ := h.shaped.value hlast
    exact Nat.lt_of_le_of_lt hle (hbelow m hm hlong p (v.suffix_leaving.subset (hleft.subset hp)))
  · obtain ⟨hdoc, hplain⟩ := Node.accepts_of_kind hlen hlist (fun he => hlast (.inl he))
      (fun he => hlast (.inr he)) v.place
    exact lt_of_claim (hs.suffix v.suffix_claiming) hdoc hplain
      ((hleft.trans v.suffix_claimed).subset hp)

mutual

/-- **The walk over an expression leaves no comment before any of its parts.** A part takes what is before
it, or leaves it to its last part; a block takes everything inside it. -/
theorem swept_node {a : Arrangement} {lo hi : Nat} : (n : Node) → n.Laid a lo hi →
    n.kind.needsList = false → (place : NodePlace) → (s : State) → PendingComment.Ascending s.queue →
    Swept n.preorder (node source place n s).2
  | ⟨kind, payload, children, span, flags, doc, leading, trailing⟩, h, hlist, place, s, hs => by
      let v : Visit := ⟨[], place, ⟨kind, payload, children, span, flags, doc, leading, trailing⟩, s, default⟩
      have hscript : v.node.kind ≠ .script := fun he => by
        rw [show kind = .script from he] at hlist
        cases hlist
      have hleft : (v.final source).queue <:+ v.leftover source := v.suffix_final hscript
      intro m hm hlen p hp
      rw [Node.preorder] at hm
      by_cases hblock : kind = .block ∧ 0 < children.length
      · -- what is left ends behind the block, and so behind all that is in it
        have hstop : span.stop < p.stop := by
          have hp := hleft.subset hp
          unfold Visit.leftover behindBlock at hp
          rw [if_pos hblock] at hp
          exact (hs.suffix (v.suffix_leaving.trans v.suffix_walked)).lt_of_dropWhile hp
        obtain ⟨child, hchild⟩ := List.exists_mem_of_length_pos hblock.2
        have hinner : v.node.innerStop hi = span.stop := Node.innerStop_of_block hblock.1 hchild hi
        have hm : m.span.stop ≤ span.stop := by
          obtain rfl | hm := List.mem_cons.mp hm
          · exact Nat.le_refl _
          · exact hinner ▸ (h.below.within m hm).1
        exact Nat.lt_of_le_of_lt (Nat.le_trans (Nat.le_add_right _ _) hm) hstop
      · have hchildren : ∀ child ∈ children, child.kind.needsList = false := by
          intro child hc
          by_contra hneeds
          rcases h.shaped.list child hc (Bool.not_eq_false _ ▸ hneeds) with he | he
          · exact hblock ⟨he, List.length_pos_of_mem hc⟩
          · rw [show kind.needsList = true from he] at hlist
            cases hlist
        have hbelow : Swept (Node.preorderAll children) (v.walked source) :=
          swept_nodes children h.below hchildren place kind 0 (v.entered source)
            (hs.suffix v.suffix_entered)
        obtain rfl | hm := List.mem_cons.mp hm
        · exact v.lt_of_final h hlen hlist hs hbelow p hp
        · exact hbelow m hm hlen p
            (((hleft.trans v.suffix_leftover).trans v.suffix_leaving).subset hp)

theorem swept_nodes {a : Arrangement} {lo hi : Nat} : (ns : List Node) →
    Node.LaidAll a lo ns hi → (∀ n ∈ ns, n.kind.needsList = false) → (place : NodePlace) →
    (kind : NodeKind) → (index : Nat) → (s : State) → PendingComment.Ascending s.queue →
    Swept (Node.preorderAll ns) (nodes source place kind index ns s).2
  | [], _, _, _, _, _, _, _ => nofun
  | n :: rest, h, hlist, place, kind, index, s, hs => by
      obtain ⟨next, -, -, hn, hrest⟩ := Node.laidAll_cons.mp h
      have hfirst := swept_node n hn (hlist n List.mem_cons_self) (place.child kind index) s hs
      have hothers := swept_nodes rest hrest (fun m hm => hlist m (List.mem_cons_of_mem n hm)) place kind
        (index + 1) (node source (place.child kind index) n s).2 (hs.suffix (suffix_node s))
      intro m hm hlen p hp
      rw [nodes] at hp
      rw [Node.preorderAll] at hm
      obtain hm | hm := List.mem_append.mp hm
      · exact hfirst m hm hlen p ((suffix_nodes kind (index + 1) rest _).subset hp)
      · exact hothers m hm hlen p hp

end

/-! ## The comment of a node -/

namespace Visit

/-- The documentation comment whose record the node gets. -/
def owner (source : Array Char) (v : Visit) : Option PendingComment :=
  Attaching.owner v.node v.place (v.claiming source).queue

variable {v w : Visit} {p : PendingComment} {a : Arrangement} {lo hi : Nat}

/-- A node that claims before its children takes comments that end before it, and none of its parts does. -/
theorem owner_early (h : v.node.Laid a lo hi) (hs : PendingComment.Ascending v.state.queue)
    (hearly : v.node.startsAfterChildren = false) (hgrows : v.node.outgrows = false)
    (hp : v.owner source = some p) :
    ∀ child ∈ v.node.children, ¬child.Encloses p.comment := by
  rintro child hc ⟨⟨m, hm, hlen, hstop⟩, -⟩
  obtain ⟨hmem, -, hpolicy, hclaims⟩ := mem_of_owner hp
  have hnode : 0 < v.node.span.length := Node.length_pos_of_accept hpolicy
  obtain ⟨hcomma, haccess⟩ := Node.ordinary_of_early hearly hgrows
  have hreach := (h.below.within m (Node.mem_preorderAll_of_mem hc m hm)).2 hlen
  rw [Node.innerStart_of_ordinary hnode hcomma haccess] at hreach
  have hle := Node.le_offset_of_claims hclaims
  have hlong := (hs.suffix v.suffix_claiming).long p hmem
  omega

/-- An access that claims behind its receiver takes comments that stand behind all of its parts. -/
theorem owner_late (h : v.node.Laid a lo hi) (hs : PendingComment.Ascending v.state.queue)
    (hlate : v.node.startsAfterChildren = true)
    (hp : v.owner source = some p) :
    ∀ child ∈ v.node.children, ¬child.Encloses p.comment := by
  rintro child hc ⟨-, m, hm, hlen, hstop⟩
  have hchildren : ∀ child ∈ v.node.children, child.kind.needsList = false := by
    intro child hc
    by_contra hlist
    have hparent := h.shaped.list child hc (Bool.not_eq_false _ ▸ hlist)
    rcases Node.kind_of_isAccess (Node.isAccess_of_startsAfterChildren hlate) with he | he <;>
      rw [he] at hparent <;> exact absurd hparent (by decide)
  have hswept : Swept (Node.preorderAll v.node.children) (v.walked source) :=
    swept_nodes v.node.children h.below hchildren v.place v.node.kind 0 (v.entered source)
      (hs.suffix v.suffix_entered)
  have hmem : p ∈ (v.walked source).queue := by
    have := (mem_of_owner hp).1
    rwa [claiming, if_pos hlate] at this
  exact Nat.not_le.mpr (hswept m (Node.mem_preorderAll_of_mem hc m hm) hlen p hmem) hstop

end Visit

namespace Visits

variable {start v : Visit} {p : PendingComment}

theorem laid {a : Arrangement} {lo hi : Nat} (hstart : start.node.Laid a lo hi)
    (h : Visits source start v) : ∃ a lo hi, v.node.Laid a lo hi := by
  induction h with
  | start => exact ⟨_, _, _, hstart⟩
  | step _ hstep ih =>
      obtain ⟨hchild, -⟩ := hstep
      obtain ⟨_, _, _, hlaid⟩ := ih
      obtain ⟨mid, next, -, -, hchild⟩ := hlaid.below.getElem? hchild
      exact ⟨_, mid, next, hchild⟩

/-- **Where the comment of a node lies**: not inside one of its parts, unless the node claims comments
before parts behind which it stands. -/
theorem owner_outside {a : Arrangement} {lo hi : Nat} (hstart : start.node.Laid a lo hi)
    (hs : PendingComment.Ascending start.state.queue) (h : Visits source start v) (hgrows : v.node.outgrows = false)
    (hp : v.owner source = some p) :
    ∀ child ∈ v.node.children, ¬child.Encloses p.comment := by
  obtain ⟨_, _, _, hlaid⟩ := h.laid hstart
  have hs := hs.suffix h.suffix
  cases hlate : v.node.startsAfterChildren with
  | false => exact Visit.owner_early hlaid hs hlate hgrows hp
  | true => exact Visit.owner_late hlaid hs hlate hp

end Visits

/-! ## The tree with comments -/

namespace Visits

variable {start v : Visit}

/-- **The record of a node is that of the comment that it has claimed.** -/
theorem doc_out (hstart : start.out.children = (start.result source).children)
    (h : Visits source start v) (hv : v ≠ start) :
    v.out.doc = (v.owner source).bind (·.record v.place) := by
  cases h with
  | start => exact absurd rfl hv
  | step hv hstep =>
      rw [hstep.made (hv.children_out hstart)]
      show (v.result source).doc = _
      unfold Visit.result
      rw [v.node_eq]
      exact doc_claim _

end Visits

end Attaching

/-! ## The whole parse -/

open Attaching (Visit Visits)

/-- **Documentation does not leave its expression.** With comments asked for, the walk over the tree of a
script comes to all of its nodes. What it attaches to a node below the root is the record of one documentation
comment of the source, which it claims there; and no part of the node encloses the comment, unless the node
is a comma node or an access in parentheses. -/
theorem parse_documentation (name source : String) (o : Options) (ho : o.comments ≠ .none) {root : Node}
    {s : Script} (hroot : ((Script.ofText name source o).readAll source.length).root? = (some root, s)) :
    let chars := source.toList.toArray
    let start := Visit.ofScript source o root s
    (∀ tree ∈ (parse name source o).root, tree = start.out) ∧
      (∀ n ∈ start.out.preorder, ∃ v, Visits chars start v ∧ v.out = n) ∧
      ∀ v, Visits chars start v → v ≠ start →
        v.out.doc = (v.owner chars).bind (·.record v.place) ∧
        ∀ p ∈ v.owner chars, p.comment ∈ s.grammar.lexer.comments.toList ∧ p.comment.kind = .doc ∧
          (v.out.outgrows = false → ∀ child ∈ v.out.children, ¬child.Encloses p.comment) := by
  intro chars start
  have hlaid : root.Laid .plain 0 source.length := Script.laid_ofText name source o (by rw [hroot])
  have hchildren : start.out.children = (start.result chars).children := Visit.children_ofScript ho
  refine ⟨Visit.parse_root_ofScript hroot, fun n hn => Visits.exists_out hchildren start.out .start rfl n hn,
    fun v hv hne => ⟨hv.doc_out hchildren hne, fun p hp => ?_⟩⟩
  obtain ⟨hmem, hdoc, -⟩ := Attaching.mem_of_owner hp
  have hwaits : p ∈ start.state.queue := hv.suffix.subset (v.suffix_claiming.subset hmem)
  obtain ⟨hrecorded, hkind⟩ := Visit.mem_ofScript hwaits
  refine ⟨hrecorded, hkind.mpr hdoc, fun hgrows child hc hin => ?_⟩
  -- the tree with comments has the same parts as the tree without
  have hout := hv.bare_out Visit.bare_ofScript hchildren
  rw [← Node.outgrows_bare, hout, Node.outgrows_bare] at hgrows
  have hbelow : Node.bareAll v.out.children = Node.bareAll v.node.children := by
    rw [← Node.children_bare, hout, Node.children_bare]
  obtain ⟨child', hc', he⟩ := Node.exists_mem_of_bareAll hbelow hc
  exact hv.owner_outside hlaid (Visit.ascending_ofScript hroot) hgrows hp child' hc'
    ((Node.encloses_congr he _).mp hin)

/-- The comment before a call is attached to the call, in whose callee and argument it is not. -/
theorem parse_documentation_call :
    let source := "/** @const */ f(g);"
    let chars := source.toList.toArray
    let script := (Script.ofText "a.js" source {}).readAll source.length
    ∃ root s, script.root? = (some root, s) ∧
      ∃ v, Visits chars (Visit.ofScript source {} root s) v ∧ v.out.kind = .call ∧
        v.out.doc = (v.owner chars).bind (·.record v.place) ∧ v.out.doc.isSome = true ∧
        ∃ p ∈ v.owner chars, p.comment.kind = .doc ∧
          v.out.children ≠ [] ∧ ∀ child ∈ v.out.children, ¬child.Encloses p.comment := by
  intro source chars script
  -- what there is to compute is asked for at once, so that the source is read once
  obtain ⟨root, hroot, hn, ho, hn', ho', p, hp, hparent, hkind, hdoc, hsome, hgrows⟩ :
      ∃ root ∈ script.root?.1,
        let start := Visit.ofScript source {} root script.root?.2
        ∃ (hn : 0 < start.node.children.length) (ho : 0 < start.out.children.length),
          let result := start.below chars 0 hn ho
          ∃ (hn' : 0 < result.node.children.length) (ho' : 0 < result.out.children.length),
            let call := result.below chars 0 hn' ho'
            ∃ _ ∈ call.owner chars, call.place.parent ≠ start.place.parent ∧ call.out.kind = .call ∧
              call.out.doc.isSome = true ∧ call.out.children ≠ [] ∧ call.out.outgrows = false := by
    decide +kernel
  have hscript := Script.root?_eq_of_some hroot
  let start := Visit.ofScript source {} root script.root?.2
  let result := start.below chars 0 hn ho
  let call := result.below chars 0 hn' ho'
  have hv : Visits chars start call :=
    (Visits.start.step (start.step_below chars 0 hn ho)).step (result.step_below chars 0 hn' ho')
  have hne : call ≠ start := fun h => hparent (congrArg (·.place.parent) h)
  obtain ⟨hrecord, hall⟩ := (parse_documentation "a.js" source {} nofun hscript).2.2 call hv hne
  obtain ⟨-, hcomment, hchildren⟩ := hall p hp
  exact ⟨root, _, hscript, call, hv, hkind, hrecord, hdoc, p, hp, hcomment, hsome, hchildren hgrows⟩

/-- A comma node takes a comment that stands inside a call in its left operand. -/
theorem parse_documentation_comma :
    let source := "x(/** @const */ b).c, d;"
    let script := (Script.ofText "a.js" source {}).readAll source.length
    ∃ root s, script.root? = (some root, s) ∧
      ∃ v, Visits source.toList.toArray (Visit.ofScript source {} root s) v ∧
        v.out.kind = .comma ∧ v.out.doc.isSome = true ∧
        ∃ p ∈ v.owner source.toList.toArray, ∃ child ∈ v.out.children, child.Encloses p.comment := by
  intro source script
  let chars := source.toList.toArray
  obtain ⟨root, hroot, hn, ho, hn', ho', hcomma⟩ :
      ∃ root ∈ script.root?.1,
        let start := Visit.ofScript source {} root script.root?.2
        ∃ (hn : 0 < start.node.children.length) (ho : 0 < start.out.children.length),
          let result := start.below chars 0 hn ho
          ∃ (hn' : 0 < result.node.children.length) (ho' : 0 < result.out.children.length),
            let comma := result.below chars 0 hn' ho'
            comma.out.kind = .comma ∧ comma.out.doc.isSome = true ∧
              ∃ p ∈ comma.owner chars, ∃ child ∈ comma.out.children, child.Encloses p.comment := by
    decide +kernel
  have hscript := Script.root?_eq_of_some hroot
  exact ⟨root, _, hscript, _, (Visits.start.step (Visit.step_below chars _ 0 hn ho)).step
    (Visit.step_below chars _ 0 hn' ho'), hcomma⟩

end EcmaScript
