import EcmaScript.Proofs.Comment.Shares
import EcmaScript.Proofs.Comment.Visits
import EcmaScript.Proofs.Grammar.Interleaving

/-!
# The queue of comments

The comments wait in the order of the text. A node claims the longest prefix of the queue whose comments end
before it and which it does not leave for its first child (`queue_claim`); its record is that of the last
documentation comment among them (`doc_claim`). Steps only take comments from the front, so the queue at one
time is a suffix of the queue at any time before.

## Contents

* `Ascending`: comments one behind the other.
* `Node.claims`, `queue_claim`, `doc_claim`: what a node claims.
* `suffix_node`, `suffix_nodes`: the queue becomes shorter.
-/

namespace EcmaScript

namespace PendingComment

/-- The comments stand one behind the other, and none of them is empty. -/
structure Ascending (ps : List PendingComment) : Prop where
  apart : ps.Pairwise fun p q => p.stop ≤ q.comment.span.offset
  long : ∀ p ∈ ps, p.comment.span.offset < p.stop

/-- What the comment says about a node at the place: the type that it is there, or what its tags say. -/
def record (p : PendingComment) (place : NodePlace) : Option Doc.Info :=
  if place.typed then (Doc.parseInlineType p.comment.text p.comment.span.start).1.or p.info else p.info

namespace Ascending

variable {ps qs : List PendingComment} {p q : PendingComment}

theorem suffix (h : Ascending ps) (hs : qs <:+ ps) : Ascending qs :=
  ⟨h.apart.sublist hs.sublist, fun p hp => h.long p (hs.subset hp)⟩

/-- All comments behind the first one that ends behind `k` do so too. -/
theorem lt_of_dropWhile (h : Ascending ps) {k : Nat} (hq : q ∈ ps.dropWhile (·.stop ≤ k)) : k < q.stop := by
  induction ps with
  | nil => cases hq
  | cons p rest ih =>
      have hrest : Ascending rest := h.suffix (List.suffix_cons p rest)
      by_cases hp : p.stop ≤ k
      · rw [List.dropWhile_cons_of_pos (by simpa using hp)] at hq
        exact ih hrest hq
      · rw [List.dropWhile_cons_of_neg (by simpa using hp)] at hq
        obtain rfl | hq := List.mem_cons.mp hq
        · exact Nat.lt_of_not_le hp
        · have := (List.pairwise_cons.mp h.apart).1 q hq
          have := h.long q (List.mem_cons_of_mem p hq)
          omega

end Ascending

end PendingComment

namespace Backlog

variable {options : Doc.Options}

/-- Every comment that waits is one of those that were added, with a record if it is documentation. -/
theorem add_reversed (b : Backlog) (options : Doc.Options) (sink : Sink) (c : Comment) :
    (b.add options sink c).1.reversed = b.reversed ∨
      ∃ info, (b.add options sink c).1.reversed = ⟨c, info⟩ :: b.reversed ∧
        (c.kind = .doc ↔ info.isSome = true) := by
  unfold add
  cases hk : c.kind <;> dsimp only
  case doc =>
    split
    · exact .inl rfl
    next info _ _ =>
      dsimp only
      split
      · exact .inl rfl
      · exact .inr ⟨some info, rfl, iff_of_true rfl rfl⟩
  case line | block =>
    split
    · exact .inr ⟨none, rfl, iff_of_false nofun nofun⟩
    · exact .inl rfl
  all_goals exact .inl rfl

/-- The comments that wait, in the order in which they were added. -/
structure Holds (b : Backlog) (comments : List Comment) : Prop where
  sublist : (b.reversed.reverse.map (·.comment)).Sublist comments
  kind : ∀ p ∈ b.reversed, p.comment.kind = .doc ↔ p.isPlain = false

theorem Holds.add {b : Backlog} {comments : List Comment} (h : b.Holds comments) (sink : Sink)
    (c : Comment) : (b.add options sink c).1.Holds (comments ++ [c]) := by
  obtain he | ⟨info, he, hinfo⟩ := b.add_reversed options sink c
  · exact ⟨he ▸ h.sublist.trans (List.sublist_append_left _ _), he ▸ h.kind⟩
  · refine ⟨?_, fun p hp => ?_⟩
    · rw [he, List.reverse_cons, List.map_append]
      exact h.sublist.append (List.Sublist.refl _)
    · rw [he] at hp
      obtain rfl | hp := List.mem_cons.mp hp
      · rw [hinfo]
        cases info <;> simp [PendingComment.isPlain]
      · exact h.kind p hp

theorem Holds.foldl {b : Backlog} {before : List Comment} (h : b.Holds before) (comments : List Comment)
    (sink : Sink) :
    (comments.foldl (fun (b, sink) c => b.add options sink c) (b, sink)).1.Holds (before ++ comments) := by
  induction comments generalizing before b sink with
  | nil => rwa [List.append_nil]
  | cons c rest ih =>
      rw [List.append_cons]
      exact ih (h.add sink c) (b.add options sink c).2

theorem holds_ofComments (comments : List Comment) (sink : Sink) :
    (ofComments options comments sink).1.Holds comments := by
  have hnone : ({} : Backlog).Holds [] := ⟨List.Sublist.refl _, fun p hp => absurd hp List.not_mem_nil⟩
  exact hnone.foldl comments sink

/-- **The comments that wait ascend**, as those of the source do. -/
theorem ascending_ofComments {comments : List Comment} (h : Comment.Ascending comments) (sink : Sink) :
    PendingComment.Ascending (ofComments options comments sink).1.reversed.reverse := by
  have hholds : (ofComments options comments sink).1.Holds comments := holds_ofComments comments sink
  have hsub := hholds.sublist
  refine ⟨List.pairwise_map.mp (h.apart.sublist hsub), fun p hp => ?_⟩
  exact Nat.lt_add_of_pos_right (h.long _ (hsub.subset (List.mem_map_of_mem hp)))

end Backlog

namespace Node

/-- Whether the node claims the comment if it comes first. -/
def claims (n : Node) (place : NodePlace) (p : PendingComment) : Bool :=
  decide (p.stop ≤ n.span.offset) &&
    if p.isPlain then n.takesPlain place else n.docPolicy place != .defer

theorem le_offset_of_claims {n : Node} {place : NodePlace} {p : PendingComment}
    (h : n.claims place p = true) : p.stop ≤ n.span.offset :=
  of_decide_eq_true (Bool.and_eq_true_iff.mp h).1

/-- A node without length claims nothing. -/
theorem length_pos_of_claims {n : Node} {place : NodePlace} {p : PendingComment}
    (h : n.claims place p = true) : 0 < n.span.length := by
  refine Nat.pos_iff_ne_zero.mpr fun h0 => ?_
  unfold claims docPolicy takesPlain at h
  rw [if_pos h0, if_pos h0] at h
  simp at h

end Node

namespace Attaching

variable {source : Array Char} {n : Node} {place : NodePlace}

theorem mem_plain {ps : List PendingComment} {c : Comment} :
    c ∈ plain ps ↔ ∃ p ∈ ps, p.isPlain = true ∧ p.comment = c := by
  unfold plain
  simp only [List.mem_map, List.mem_filter, and_assoc]

/-! ## Claims -/

theorem queue_claimFrom (claimed : Claim) (queue : List PendingComment) (sink : Sink) :
    (claimFrom source n place claimed queue sink).2.queue = queue.dropWhile (n.claims place) := by
  induction queue generalizing claimed sink with
  | nil => rfl
  | cons p rest ih =>
      unfold claimFrom
      split
      next hlt =>
        have hno : ¬n.claims place p = true := by simp [Node.claims, Nat.not_le.mpr hlt]
        rw [List.dropWhile_cons_of_neg hno]
      next hle =>
        have hstop : p.stop ≤ n.span.offset := Nat.not_lt.mp hle
        cases hinfo : p.info with
        | some info =>
            have hclaims : n.claims place p = (n.docPolicy place != .defer) := by
              simp [Node.claims, hstop, PendingComment.isPlain, hinfo]
            dsimp only
            cases hpolicy : n.docPolicy place <;> rw [List.dropWhile_cons, hclaims, hpolicy]
            · exact ih _ _
            · rfl
            · exact ih _ _
        | none =>
            have hclaims : n.claims place p = n.takesPlain place := by
              simp [Node.claims, hstop, PendingComment.isPlain, hinfo]
            dsimp only
            rw [List.dropWhile_cons, hclaims]
            split
            · exact ih _ _
            · rfl

/-- **A node claims the longest prefix of the queue** that it can. -/
theorem queue_claim (s : State) :
    (claim source n place s).2.queue = s.queue.dropWhile (n.claims place) := queue_claimFrom _ _ _

/-- The documentation comment that decides about the record of a node: the last one that it claims, if it
accepts documentation. -/
def owner (n : Node) (place : NodePlace) (queue : List PendingComment) : Option PendingComment :=
  if n.docPolicy place = .accept then
    ((queue.takeWhile (n.claims place)).filter (!·.isPlain)).getLast?
  else none

theorem owner_of_ne (h : n.docPolicy place ≠ .accept) (queue : List PendingComment) :
    owner n place queue = none := if_neg h

theorem owner_of_not_claims {p : PendingComment} (h : ¬n.claims place p = true)
    (rest : List PendingComment) : owner n place (p :: rest) = none := by
  unfold owner
  rw [List.takeWhile_cons_of_neg h]
  exact ite_self _

theorem owner_cons {p : PendingComment} (h : n.claims place p = true) (rest : List PendingComment) :
    owner n place (p :: rest) =
      (owner n place rest).or (if n.docPolicy place = .accept ∧ p.isPlain = false then some p else none) := by
  unfold owner
  rw [List.takeWhile_cons_of_pos h, List.filter_cons]
  by_cases hpolicy : n.docPolicy place = .accept
  · cases hp : p.isPlain with
    | true => simp [hpolicy]
    | false =>
        have hboth : n.docPolicy place = .accept ∧ false = false := ⟨hpolicy, rfl⟩
        rw [if_pos hpolicy, if_pos hpolicy, if_pos hboth, if_pos (show (!false) = true from rfl),
          List.getLast?_cons]
        cases ((rest.takeWhile (n.claims place)).filter (!·.isPlain)).getLast? <;> rfl
  · simp [hpolicy]

theorem fst_readDoc (p : PendingComment) (sink : Sink) : (readDoc place p sink).1 = p.record place := by
  unfold readDoc PendingComment.record
  split <;> rfl

theorem doc_claimFrom (claimed : Claim) (queue : List PendingComment) (sink : Sink) :
    (claimFrom source n place claimed queue sink).1.doc =
      match owner n place queue with
      | some p => p.record place
      | none => claimed.doc := by
  induction queue generalizing claimed sink with
  | nil =>
      rw [show owner n place [] = none from ite_self _]
      rfl
  | cons p rest ih =>
      unfold claimFrom
      split
      next hlt =>
        have hno : ¬n.claims place p = true := by simp [Node.claims, Nat.not_le.mpr hlt]
        rw [owner_of_not_claims hno]
      next hle =>
        have hstop : p.stop ≤ n.span.offset := Nat.not_lt.mp hle
        cases hinfo : p.info with
        | some info =>
            have hdoc : p.isPlain = false := by rw [PendingComment.isPlain, hinfo]; rfl
            have hclaims : n.claims place p = (n.docPolicy place != .defer) := by
              simp [Node.claims, hstop, hdoc]
            dsimp only
            cases hpolicy : n.docPolicy place with
            | defer =>
                rw [hpolicy] at hclaims
                rw [owner_of_not_claims (by rw [hclaims]; decide)]
            | discard =>
                rw [ih, owner_of_ne (by rw [hpolicy]; decide), owner_of_ne (by rw [hpolicy]; decide)]
            | accept =>
                rw [hpolicy] at hclaims
                rw [owner_cons (hclaims.trans rfl), if_pos ⟨hpolicy, hdoc⟩, ih]
                cases owner n place rest with
                | some q => rfl
                | none => exact fst_readDoc p sink
        | none =>
            have hplain : p.isPlain = true := by rw [PendingComment.isPlain, hinfo]; rfl
            have hclaims : n.claims place p = n.takesPlain place := by
              simp [Node.claims, hstop, hplain]
            dsimp only
            split
            next htakes =>
              rw [owner_cons (hclaims.trans htakes), if_neg (by simp [hplain]), Option.or_none, ih]
            next htakes => rw [owner_of_not_claims (by rwa [hclaims])]

/-- **The record of a node is that of its owner.** -/
theorem doc_claim (s : State) :
    (claim source n place s).1.doc = (owner n place s.queue).bind (·.record place) := by
  refine (doc_claimFrom {} s.queue s.sink).trans ?_
  cases owner n place s.queue <;> rfl

theorem mem_of_owner {queue : List PendingComment} {p : PendingComment}
    (h : owner n place queue = some p) :
    p ∈ queue ∧ p.isPlain = false ∧ n.docPolicy place = .accept ∧ n.claims place p = true := by
  unfold owner at h
  split at h
  next hpolicy =>
    obtain ⟨hmem, hdoc⟩ := List.mem_filter.mp (List.mem_of_getLast? h)
    exact ⟨(List.takeWhile_prefix _).subset hmem, by simpa using hdoc, hpolicy, List.mem_takeWhile_imp hmem⟩
  next => cases h

/-! ## Leaving a node -/

/-- The comments of a list that are behind a statement or an item on its line are taken one at a time. -/
def dropLine (source : Array Char) (stop : Nat) : List PendingComment → List PendingComment
  | [] => []
  | p :: rest =>
    if p.isPlain && stop ≤ p.comment.span.offset && onlySeparators source stop p.comment.span.offset then
      rest
    else p :: rest

theorem queue_sameLine (stop : Nat) (run : Option CommentRun) (s : State) :
    (sameLine source stop run s).2.queue = dropLine source stop s.queue := by
  obtain ⟨queue, sink⟩ := s
  cases queue with
  | nil => rfl
  | cons p rest =>
      rw [sameLine_cons]
      dsimp only [dropLine]
      split <;> rfl

/-- What waits when a block with that many statements has settled the comments inside it. -/
def behindBlock (kind : NodeKind) (stop count : Nat) (queue : List PendingComment) :
    List PendingComment :=
  if kind = .block ∧ 0 < count then queue.dropWhile (·.stop ≤ stop) else queue

/-- What waits when a statement has taken the plain comments inside it. -/
def behindStatement (isStatement : Bool) (stop : Nat) (queue : List PendingComment) :
    List PendingComment :=
  if isStatement then queue.dropWhile fun p => p.isPlain && p.stop ≤ stop else queue

/-- What waits when a statement or an item has taken the comment behind it on its line. -/
def behindLine (source : Array Char) (ends : Bool) (stop : Nat) (queue : List PendingComment) :
    List PendingComment :=
  if ends then dropLine source stop queue else queue

/-- **What waits when a node has been left**: a block takes what is inside it, a statement the plain comments
that come first, every node the documentation that comes then, and a statement or an item the comment behind
it on its line. -/
theorem queue_leave {kind : NodeKind} (hk : kind ≠ .script) (stop : Nat) (children : List Node) (s : State) :
    (leave source place kind stop children s).2.queue =
      behindLine source (place.isStatement kind || place.isListItem) stop
        ((behindStatement (place.isStatement kind) stop (behindBlock kind stop children.length s.queue)).dropWhile
          fun p => !p.isPlain && p.stop ≤ stop) := by
  have hblock : (settleBlock kind stop children s).2.queue =
      behindBlock kind stop children.length s.queue := by
    unfold settleBlock behindBlock leaveBlock
    by_cases hb : kind = .block
    · subst hb
      rw [if_pos (show (NodeKind.block == NodeKind.block) = true from rfl)]
      cases children with
      | nil => rfl
      | cons n rest =>
          rw [if_neg (show ¬((n :: rest).isEmpty = true) from nofun),
            if_pos ⟨rfl, Nat.succ_pos _⟩]
          rfl
    · rw [if_neg (mt beq_iff_eq.mp hb), if_neg fun h => hb h.1]
      rfl
  have hstatement (isStatement : Bool) (run : Option CommentRun) (t : State) :
      (settleStatement isStatement stop run t).2.queue = behindStatement isStatement stop t.queue := by
    cases isStatement <;> rfl
  have hline (ends : Bool) (run : Option CommentRun) (t : State) :
      (settleLine source ends stop run t).2.queue = behindLine source ends stop t.queue := by
    cases ends with
    | false => rfl
    | true => exact queue_sameLine stop run t
  have hscript : settleScript kind = pure none := if_neg (mt beq_iff_eq.mp hk)
  rw [leave_eq, hscript]
  refine (hline _ _ _).trans ?_
  refine congrArg (behindLine source _ stop) ?_
  refine congrArg (List.dropWhile _) ?_
  exact (hstatement _ _ _).trans (congrArg _ hblock)

theorem behindBlock_suffix (kind : NodeKind) (stop count : Nat) (queue : List PendingComment) :
    behindBlock kind stop count queue <:+ queue := by
  unfold behindBlock
  split
  · exact List.dropWhile_suffix _
  · exact List.suffix_refl _

theorem behindStatement_suffix (isStatement : Bool) (stop : Nat) (queue : List PendingComment) :
    behindStatement isStatement stop queue <:+ queue := by
  unfold behindStatement
  split
  · exact List.dropWhile_suffix _
  · exact List.suffix_refl _

theorem behindLine_suffix (ends : Bool) (stop : Nat) (queue : List PendingComment) :
    behindLine source ends stop queue <:+ queue := by
  unfold behindLine
  split
  · cases queue with
    | nil => exact List.suffix_refl _
    | cons p rest =>
        dsimp only [dropLine]
        split
        · exact List.suffix_cons p rest
        · exact List.suffix_refl _
  · exact List.suffix_refl _

/-! ## The queue becomes shorter -/

theorem suffix_claim (s : State) : (claim source n place s).2.queue <:+ s.queue := by
  rw [queue_claim]
  exact List.dropWhile_suffix _

theorem suffix_node (s : State) : (node source place n s).2.queue <:+ s.queue :=
  have ⟨taken, hq, _⟩ := takes_node source place n s
  ⟨taken, hq.symm⟩

theorem suffix_nodes (kind : NodeKind) (offset : Nat) (ns : List Node) (s : State) :
    (nodes source place kind offset ns s).2.queue <:+ s.queue :=
  have ⟨taken, hq, _⟩ := takes_nodes source place kind offset ns s
  ⟨taken, hq.symm⟩

namespace Visit

variable (v : Visit)

theorem suffix_entered : (v.entered source).queue <:+ v.state.queue := by
  unfold entered
  split
  · exact List.suffix_refl _
  · exact suffix_claim _

theorem suffix_before (index : Nat) : (v.before source index).queue <:+ v.state.queue :=
  (suffix_nodes _ _ _ _).trans v.suffix_entered

theorem suffix_walked : (v.walked source).queue <:+ v.state.queue :=
  (suffix_nodes _ _ _ _).trans v.suffix_entered

theorem suffix_claiming : (v.claiming source).queue <:+ v.state.queue := by
  unfold claiming
  split
  · exact v.suffix_walked
  · exact List.suffix_refl _

theorem suffix_leaving : (v.leaving source).queue <:+ (v.walked source).queue := by
  unfold leaving
  split
  · exact suffix_claim _
  · exact List.suffix_refl _

/-- What waits when the node has claimed comments and its parts have been walked. -/
theorem suffix_claimed :
    (v.leaving source).queue <:+ (claim source v.node v.place (v.claiming source)).2.queue := by
  unfold leaving claiming
  split
  · exact List.suffix_refl _
  next h =>
    have hentered : v.entered source = (claim source v.node v.place v.state).2 := if_neg h
    exact (suffix_nodes _ _ _ _).trans (hentered ▸ List.suffix_refl _)

/-- What waits when the parts of the node have been walked, and a block has settled the comments inside
it. -/
def leftover (source : Array Char) (v : Visit) : List PendingComment :=
  behindBlock v.node.kind v.node.span.stop v.node.children.length (v.leaving source).queue

theorem queue_final (hk : v.node.kind ≠ .script) :
    (v.final source).queue =
      behindLine source (v.place.isStatement v.node.kind || v.place.isListItem) v.node.span.stop
        ((behindStatement (v.place.isStatement v.node.kind) v.node.span.stop (v.leftover source)).dropWhile
          fun p => !p.isPlain && p.stop ≤ v.node.span.stop) := by
  unfold final leftover
  rw [v.node_eq]
  refine (queue_leave hk _ _ _).trans ?_
  rw [length_nodes]

theorem suffix_final (hk : v.node.kind ≠ .script) : (v.final source).queue <:+ v.leftover source := by
  rw [v.queue_final hk]
  exact (behindLine_suffix _ _ _).trans ((List.dropWhile_suffix _).trans (behindStatement_suffix _ _ _))

theorem suffix_leftover : v.leftover source <:+ (v.leaving source).queue := behindBlock_suffix _ _ _ _

end Visit

theorem Visits.suffix {start v : Visit} (h : Visits source start v) :
    v.state.queue <:+ start.state.queue := by
  induction h with
  | start => exact List.suffix_refl _
  | step _ hstep ih =>
      obtain ⟨-, -⟩ := hstep
      exact (Visit.suffix_before _ _).trans ih

end Attaching

end EcmaScript
