import EcmaScript.Parse
import EcmaScript.Proofs.Comment.Walk
import Mathlib.Data.List.Forall2
import Mathlib.Data.List.TakeWhile

/-!
# Every plain comment is attached once

The walk that attaches comments takes them from the front of a queue. What a step takes is a list that the
queue starts with (`Takes`), and of that list the plain comments go to the nodes that the step is about:
each node has a share of comments before it and one of comments behind it (`Share`), and what is attached
to it is those comments in their order (`Merges`). The shares of a tree together are what was taken for it
(`Deals`).

## Contents

* `AttachedComment.Merges`, `Merged`: what a merged comment is made of.
* `Share`, `Node.Holds`, `Deals`: the comments of the nodes of a tree.
* `Attaching.Takes`: a step of the walk, by what it takes from the queue.
* `Attaching.takes_node`: the walk, by recursion over the tree.
* `Node.deals_attachComments`, `plain_comments_attached`: the whole tree.
-/

namespace EcmaScript

/-- Whether the comment is neither documentation nor one of the special kinds. -/
def Comment.isPlain (c : Comment) : Bool := c.kind == .line || c.kind == .block

/-! ## Merged comments -/

/-- That many line breaks. -/
def lineBreaks (n : Nat) : String := String.ofList (List.replicate n '\n')

/-- The merged comment consists of the comments, in this order: their texts without white space at the
end, each behind some line breaks, in the region from the first one to the last one. -/
inductive AttachedComment.Merges : AttachedComment → List Comment → Prop where
  | one (c : Comment) (breaks : Nat) (isInline : Bool) :
    Merges ⟨lineBreaks breaks ++ c.trimmed, isInline, c.endsLine, .between c.span.start c.span.stop⟩ [c]
  | more {a : AttachedComment} {cs : List Comment} (h : Merges a cs) (c : Comment) (breaks : Nat)
      (isInline : Bool) :
    Merges ⟨a.text ++ lineBreaks breaks ++ c.trimmed, isInline, c.endsLine, a.span.withStop c.span.stop⟩
      (cs ++ [c])

/-- What is attached on one side of a node: the comments, merged, or nothing. -/
def Merged (side : Option AttachedComment) (cs : List Comment) : Prop :=
  match side with
  | some a => a.Merges cs
  | none => cs = []

/-- What is merged so far. -/
def MergedRun (run : Option CommentRun) (cs : List Comment) : Prop := Merged (run.map (·.attached)) cs

section Merge

variable {run : Option CommentRun} {r : CommentRun} {cs : List Comment}

theorem mergedRun_none : MergedRun none [] := rfl

theorem merges_ofComment (c : Comment) (isInline : Bool) :
    (CommentRun.ofComment c isInline).attached.Merges [c] := by
  have h := AttachedComment.Merges.one c 0 isInline
  rwa [show lineBreaks 0 = "" from rfl, String.empty_append] at h

theorem merges_push (h : r.attached.Merges cs) (c : Comment) (isInline : Bool) :
    ({ r.push c with isInline } : CommentRun).attached.Merges (cs ++ [c]) :=
  .more h c (c.span.line - r.lastLine) isInline

theorem mergedRun_addLeading (h : MergedRun run cs) (c : Comment) (isInline : Bool) :
    MergedRun (some (Attaching.addLeading run c isInline)) (cs ++ [c]) := by
  cases run with
  | none =>
      cases h
      exact merges_ofComment c isInline
  | some r => exact merges_push h c isInline

theorem mergedRun_addTrailing (h : MergedRun run cs) (p : PendingComment) (isInline : Bool) :
    MergedRun (Attaching.addTrailing isInline run p) (cs ++ [p.comment]) := by
  cases run with
  | none =>
      cases h
      exact merges_ofComment p.comment isInline
  | some r => exact merges_push h p.comment r.isInline

theorem mergedRun_foldl (h : MergedRun run cs) (ps : List PendingComment) (isInline : Bool) :
    MergedRun (ps.foldl (Attaching.addTrailing isInline) run) (cs ++ ps.map (·.comment)) := by
  induction ps generalizing run cs with
  | nil => rwa [List.map_nil, List.append_nil]
  | cons p ps ih =>
      rw [List.foldl_cons, List.map_cons, List.append_cons]
      exact ih (mergedRun_addTrailing h p isInline)

theorem merged_addBlockTrailing {side : Option AttachedComment} (h : Merged side cs)
    (p : PendingComment) : Merged (Attaching.addBlockTrailing side p) (cs ++ [p.comment]) := by
  cases side with
  | none =>
      cases h
      exact .one p.comment 1 false
  | some a => exact .more h p.comment 1 a.isInline

theorem merged_foldl {side : Option AttachedComment} (h : Merged side cs) (ps : List PendingComment) :
    Merged (ps.foldl Attaching.addBlockTrailing side) (cs ++ ps.map (·.comment)) := by
  induction ps generalizing side cs with
  | nil => rwa [List.map_nil, List.append_nil]
  | cons p ps ih =>
      rw [List.foldl_cons, List.map_cons, List.append_cons]
      exact ih (merged_addBlockTrailing h p)

end Merge

/-! ## Shares -/

/-- The comments of a node. -/
structure Share where
  leading : List Comment
  trailing : List Comment

def Share.comments (s : Share) : List Comment := s.leading ++ s.trailing

/-- The node has exactly these comments. -/
structure Node.Holds (n : Node) (s : Share) : Prop where
  leading : Merged n.leading s.leading
  trailing : Merged n.trailing s.trailing

/-- The comments are dealt out to the nodes: every one of them to one side of one node, and on each side
they stand in their order. -/
def Deals (ns : List Node) (cs : List Comment) : Prop :=
  ∃ shares : List Share, List.Forall₂ Node.Holds ns shares ∧
    (shares.flatMap Share.comments).Perm cs ∧
    ∀ s ∈ shares, s.leading.Sublist cs ∧ s.trailing.Sublist cs

namespace Deals

variable {ns ms : List Node} {cs ds ls ts : List Comment} {n : Node}

theorem nil : Deals [] [] := ⟨[], .nil, .nil, nofun⟩

theorem append (h : Deals ns cs) (h' : Deals ms ds) : Deals (ns ++ ms) (cs ++ ds) := by
  obtain ⟨xs, hx, hp, hs⟩ := h
  obtain ⟨ys, hy, hp', hs'⟩ := h'
  refine ⟨xs ++ ys, List.rel_append hx hy, ?_, fun s hm => ?_⟩
  · rw [List.flatMap_append]
    exact hp.append hp'
  · obtain hm | hm := List.mem_append.mp hm
    · exact (hs s hm).imp (·.trans (List.sublist_append_left _ _)) (·.trans (List.sublist_append_left _ _))
    · exact (hs' s hm).imp (·.trans (List.sublist_append_right _ _)) (·.trans (List.sublist_append_right _ _))

/-- A node around the nodes below it, which have the comments `bs` and the first ones behind them. -/
theorem around {xs ys zs : List Comment} (hl : Merged n.leading xs) (ht : Merged n.trailing zs)
    (h : Deals ns (ys ++ ds)) (hp : (xs ++ ys).Perm cs) (hxs : xs.Sublist cs) (hys : ys.Sublist cs) :
    Deals (n :: ns) (cs ++ (ds ++ zs)) := by
  obtain ⟨shares, hx, hp', hs⟩ := h
  have hbelow : (ys ++ ds).Sublist (cs ++ (ds ++ zs)) := hys.append (List.sublist_append_left _ _)
  refine ⟨⟨xs, zs⟩ :: shares, .cons ⟨hl, ht⟩ hx, List.perm_iff_count.mpr fun c => ?_, fun s hm => ?_⟩
  · have hcount := hp.count_eq c
    have hcount' := hp'.count_eq c
    simp only [List.flatMap_cons, Share.comments, List.count_append] at hcount hcount' ⊢
    omega
  · obtain rfl | hm := List.mem_cons.mp hm
    · exact ⟨hxs.trans (List.sublist_append_left _ _),
        (List.sublist_append_right _ _).trans (List.sublist_append_right _ _)⟩
    · exact (hs s hm).imp (·.trans hbelow) (·.trans hbelow)

/-- Further comments behind the first node. -/
theorem merge (h : Deals (n :: ns) cs) (ps : List PendingComment) :
    Deals ({ n with trailing := ps.foldl Attaching.addBlockTrailing n.trailing } :: ns)
      (cs ++ ps.map (·.comment)) := by
  obtain ⟨xs, hx, hp, hs⟩ := h
  cases hx with
  | @cons _ s _ xs hn hrest =>
      obtain ⟨hls, hts⟩ := hs s (List.mem_cons_self ..)
      refine ⟨⟨s.leading, s.trailing ++ ps.map (·.comment)⟩ :: xs,
        .cons ⟨hn.leading, merged_foldl hn.trailing ps⟩ hrest, ?_, fun t hm => ?_⟩
      · rw [List.flatMap_cons] at hp ⊢
        refine .trans ?_ (hp.append_right _)
        show (s.leading ++ (s.trailing ++ ps.map (·.comment)) ++ xs.flatMap Share.comments).Perm
          (s.leading ++ s.trailing ++ xs.flatMap Share.comments ++ ps.map (·.comment))
        rw [← List.append_assoc, List.append_assoc _ _ (xs.flatMap _), List.append_assoc _ (xs.flatMap _)]
        exact List.perm_append_comm.append_left _
      · obtain rfl | hm := List.mem_cons.mp hm
        · exact ⟨hls.trans (List.sublist_append_left _ _), hts.append (.refl _)⟩
        · exact (hs t (List.mem_cons_of_mem _ hm)).imp (·.trans (List.sublist_append_left _ _))
            (·.trans (List.sublist_append_left _ _))

end Deals

/-! ## Lists of nodes -/

/-- The comments are dealt out to the trees of a list, and whatever is still attached to the last tree
joins them. -/
structure DealsAll (ns : List Node) (cs : List Comment) : Prop where
  deals : Deals (Node.preorderAll ns) cs
  attach : ns ≠ [] → ∀ ps : List PendingComment,
    Deals (Node.preorderAll (Attaching.attachToLast ps ns)) (cs ++ ps.map (·.comment))

namespace DealsAll

variable {n : Node} {ns : List Node} {cs ds : List Comment}

theorem nil : DealsAll [] [] := ⟨.nil, fun h => absurd rfl h⟩

theorem cons (h : Deals n.preorder cs) (h' : DealsAll ns ds) : DealsAll (n :: ns) (cs ++ ds) := by
  refine ⟨h.append h'.deals, fun _ ps => ?_⟩
  cases ns with
  | nil =>
      have hn : Deals n.preorder (cs ++ ds) := by
        have := h.append h'.deals
        rwa [Node.preorderAll, List.append_nil] at this
      rw [Node.preorder_eq] at hn
      show Deals (Node.preorder { n with trailing := _ } ++ []) _
      rw [List.append_nil, Node.preorder_eq]
      exact hn.merge ps
  | cons m ms =>
      rw [List.append_assoc]
      exact h.append (h'.attach (List.cons_ne_nil m ms) ps)

end DealsAll

/-- The documentation of a tree does not count. -/
theorem Deals.withDoc {n : Node} {cs : List Comment} (h : Deals n.preorder cs)
    (doc : Option Doc.Info) : Deals { n with doc }.preorder cs := by
  rw [Node.preorder_eq] at h ⊢
  obtain ⟨shares, hx, hs⟩ := h
  cases hx with
  | cons hn hrest => exact ⟨_, .cons ⟨hn.leading, hn.trailing⟩ hrest, hs⟩

namespace Attaching

/-- The plain ones among comments of the queue. -/
def plain (ps : List PendingComment) : List Comment := (ps.filter (·.isPlain)).map (·.comment)

theorem plain_append (ps qs : List PendingComment) : plain (ps ++ qs) = plain ps ++ plain qs := by
  unfold plain
  rw [List.filter_append, List.map_append]

theorem plain_of_forall {ps : List PendingComment} (h : ∀ p ∈ ps, p.isPlain = true) :
    plain ps = ps.map (·.comment) := by
  unfold plain
  rw [List.filter_eq_self.mpr h]

theorem plain_eq_nil {ps : List PendingComment} (h : ∀ p ∈ ps, p.isPlain = false) : plain ps = [] := by
  unfold plain
  rw [List.filter_eq_nil_iff.mpr fun p hp => Bool.eq_false_iff.mp (h p hp), List.map_nil]

/-! ## What a step takes -/

/-- The step takes the first comments from the queue, for which `Q` holds with the result and the state
behind it. -/
def Takes {α : Type} (p : Attaching α) (s : State) (Q : List PendingComment → α → State → Prop) : Prop :=
  ∃ taken, s.queue = taken ++ (p s).2.queue ∧ Q taken (p s).1 (p s).2

namespace Takes

variable {α β : Type} {p q : Attaching α} {s : State} {P Q : List PendingComment → α → State → Prop}

theorem pure {a : α} (h : Q [] a s) : Takes (Pure.pure a) s Q := ⟨[], rfl, h⟩

theorem mono (h : Takes p s P) (hpq : ∀ taken a t, P taken a t → Q taken a t) : Takes p s Q :=
  have ⟨taken, hq, hp⟩ := h
  ⟨taken, hq, hpq taken _ _ hp⟩

theorem bind {f : α → Attaching β} {R : List PendingComment → β → State → Prop} (h : Takes p s P)
    (hf : ∀ xs a t, s.queue = xs ++ t.queue → P xs a t → Takes (f a) t fun ys b u => R (xs ++ ys) b u) :
    Takes (p >>= f) s R := by
  obtain ⟨xs, hx, hp⟩ := h
  obtain ⟨ys, hy, hq⟩ := hf xs _ _ hx hp
  exact ⟨xs ++ ys, by rw [List.append_assoc, hx, hy]; rfl, hq⟩

theorem ite {c : Prop} [Decidable c] (hp : c → Takes p s Q) (hq : ¬c → Takes q s Q) :
    Takes (if c then p else q) s Q := by
  split
  next h => exact hp h
  next h => exact hq h

end Takes

/-! ### Before a node -/

section Claim

variable {source : Array Char} {n : Node} {place : NodePlace} {cs : List Comment}

theorem plain_cons_doc {p : PendingComment} (h : p.isPlain = false) (ps : List PendingComment) :
    plain (p :: ps) = plain ps := by
  unfold plain
  rw [List.filter_cons_of_neg (by rw [h]; exact Bool.false_ne_true)]

theorem plain_cons_plain {p : PendingComment} (h : p.isPlain = true) (ps : List PendingComment) :
    plain (p :: ps) = p.comment :: plain ps := by
  unfold plain
  rw [List.filter_cons_of_pos h, List.map_cons]

theorem takes_claimFrom {claimed : Claim} (h : MergedRun claimed.leading cs)
    (queue : List PendingComment) (sink : Sink) :
    ∃ taken, queue = taken ++ (claimFrom source n place claimed queue sink).2.queue ∧
      MergedRun (claimFrom source n place claimed queue sink).1.leading (cs ++ plain taken) := by
  induction queue generalizing claimed sink cs with
  | nil => exact ⟨[], rfl, by rwa [show plain [] = [] from rfl, List.append_nil]⟩
  | cons p rest ih =>
      -- the walk stops before the comment, or it takes it and goes on
      have stop : ∃ taken, p :: rest = taken ++ p :: rest ∧
          MergedRun claimed.leading (cs ++ plain taken) :=
        ⟨[], rfl, by rwa [show plain [] = [] from rfl, List.append_nil]⟩
      unfold claimFrom
      split
      · exact stop
      · cases hinfo : p.info with
        | some info =>
            have hdoc : p.isPlain = false := by rw [PendingComment.isPlain, hinfo]; rfl
            have skip (next : Claim) (hnext : MergedRun next.leading cs) (sink : Sink) :
                ∃ taken, p :: rest = taken ++ (claimFrom source n place next rest sink).2.queue ∧
                  MergedRun (claimFrom source n place next rest sink).1.leading (cs ++ plain taken) := by
              obtain ⟨taken, hq, hm⟩ := ih hnext sink
              exact ⟨p :: taken, congrArg (p :: ·) hq, by rwa [plain_cons_doc hdoc]⟩
            dsimp only
            split
            · exact stop
            · exact skip claimed h sink
            · exact skip { claimed with doc := (readDoc place p sink).1 } h _
        | none =>
            have hplain : p.isPlain = true := by rw [PendingComment.isPlain, hinfo]; rfl
            dsimp only
            split
            · obtain ⟨taken, hq, hm⟩ := @ih (cs ++ [p.comment])
                { claimed with leading := some (addLeading claimed.leading p.comment
                    (!hasLineBreak source p.stop n.span.offset)) }
                (mergedRun_addLeading h p.comment _) sink
              refine ⟨p :: taken, congrArg (p :: ·) hq, ?_⟩
              rwa [plain_cons_plain hplain, List.append_cons]
            · exact stop

theorem takes_claim (s : State) :
    Takes (claim source n place) s fun taken claimed _ => MergedRun claimed.leading (plain taken) :=
  @takes_claimFrom _ _ _ _ {} mergedRun_none s.queue s.sink

end Claim

/-! ### Behind a node -/

section Leave

variable {s : State} {cs : List Comment} {run : Option CommentRun}

theorem takes_takeWhile (p : PendingComment → Bool) (s : State) :
    Takes (takeWhile p) s fun taken found t =>
      found = taken ∧ (∀ c ∈ taken, p c = true) ∧ t.queue = s.queue.dropWhile p :=
  ⟨s.queue.takeWhile p, List.takeWhile_append_dropWhile.symm, rfl,
    fun _ h => List.mem_takeWhile_imp h, rfl⟩

theorem takes_leaveBlock {children : List Node} (h : DealsAll children cs) (stop : Nat) (s : State) :
    Takes (leaveBlock stop children) s fun taken found _ =>
      Deals (Node.preorderAll found) (cs ++ plain taken) := by
  unfold leaveBlock
  refine .ite (fun _ => .pure ?_) fun hne => ?_
  · rw [show plain [] = [] from rfl, List.append_nil]
    exact h.deals
  · refine (takes_takeWhile _ s).bind fun xs found t _ ⟨hfound, _⟩ => .pure ?_
    subst hfound
    rw [List.append_nil]
    exact h.attach (fun he => hne (by rw [he]; rfl)) _

theorem takes_leaveScript (s : State) :
    Takes leaveScript s fun taken run t => MergedRun run (plain taken) ∧ t.queue = [] := by
  unfold leaveScript
  refine (takes_takeWhile _ s).bind fun xs found t _ ⟨hfound, _, ht⟩ => .pure ⟨?_, ?_⟩
  · subst hfound
    rw [List.append_nil]
    exact mergedRun_foldl mergedRun_none _ false
  · rw [ht]
    exact List.dropWhile_eq_nil_iff.mpr fun _ _ => rfl

theorem takes_leaveStatement (h : MergedRun run cs) (stop : Nat) (s : State) :
    Takes (leaveStatement stop run) s fun taken run _ => MergedRun run (cs ++ plain taken) := by
  unfold leaveStatement
  refine (takes_takeWhile _ s).bind fun xs found t _ ⟨hfound, hall, _⟩ => .pure ?_
  subst hfound
  rw [List.append_nil, plain_of_forall fun p hp => (Bool.and_eq_true_iff.mp (hall p hp)).1]
  exact mergedRun_foldl h found true

theorem takes_sameLine (h : MergedRun run cs) (source : Array Char) (stop : Nat) (s : State) :
    Takes (sameLine source stop run) s fun taken run _ => MergedRun run (cs ++ plain taken) := by
  have stays : MergedRun run (cs ++ plain []) := by
    rwa [show plain [] = [] from rfl, List.append_nil]
  obtain ⟨queue, sink⟩ := s
  cases queue with
  | nil => exact ⟨[], rfl, stays⟩
  | cons p rest =>
      unfold Takes
      rw [sameLine_cons]
      split
      next hp =>
        simp only [Bool.and_eq_true] at hp
        have hmerged := mergedRun_addTrailing h p true
        rw [show [p.comment] = plain [p] from (plain_cons_plain hp.1.1 []).symm] at hmerged
        exact ⟨[p], rfl, hmerged⟩
      next => exact ⟨[], rfl, stays⟩

end Leave

/-! ### Behind a node -/

section Settle

variable {s : State} {cs : List Comment} {run : Option CommentRun} {children : List Node}

theorem takes_settleBlock (h : DealsAll children cs) (kind : NodeKind) (stop : Nat) (s : State) :
    Takes (settleBlock kind stop children) s fun taken found _ =>
      Deals (Node.preorderAll found) (cs ++ plain taken) := by
  refine .ite (fun _ => takes_leaveBlock h stop s) fun _ => .pure ?_
  rw [show plain [] = [] from rfl, List.append_nil]
  exact h.deals

theorem takes_settleScript (kind : NodeKind) (s : State) :
    Takes (settleScript kind) s fun taken run t =>
      MergedRun run (plain taken) ∧ (kind = .script → t.queue = []) := by
  refine .ite (fun _ => ?_) fun hne => .pure ⟨mergedRun_none, fun he => ?_⟩
  · exact (takes_leaveScript s).mono fun _ _ _ ⟨hrun, ht⟩ => ⟨hrun, fun _ => ht⟩
  · exact absurd (beq_iff_eq.mpr he) hne

theorem takes_settleStatement (h : MergedRun run cs) (isStatement : Bool) (stop : Nat) (s : State) :
    Takes (settleStatement isStatement stop run) s fun taken run _ =>
      MergedRun run (cs ++ plain taken) := by
  refine .ite (fun _ => takes_leaveStatement h stop s) fun _ => .pure ?_
  rwa [show plain [] = [] from rfl, List.append_nil]

theorem takes_settleLine (h : MergedRun run cs) (source : Array Char) (ends : Bool) (stop : Nat)
    (s : State) :
    Takes (settleLine source ends stop run) s fun taken run _ => MergedRun run (cs ++ plain taken) := by
  refine .ite (fun _ => takes_sameLine h source stop s) fun _ => .pure ?_
  rwa [show plain [] = [] from rfl, List.append_nil]

/-- Behind its children a node takes comments for the last one of them, and then for itself. A script
takes all that is left. -/
theorem takes_leave (source : Array Char) (place : NodePlace) (kind : NodeKind) (stop : Nat)
    (h : DealsAll children cs) (s : State) :
    Takes (leave source place kind stop children) s fun taken out t =>
      ∃ xs ys, taken = xs ++ ys ∧ Deals (Node.preorderAll out.1) (cs ++ plain xs) ∧
        MergedRun out.2 (plain ys) ∧ (kind = .script → t.queue = []) := by
  -- a queue that a script has emptied stays empty
  have empty {t u : State} {taken : List PendingComment} (hq : t.queue = taken ++ u.queue)
      (ht : kind = .script → t.queue = []) (hk : kind = .script) : u.queue = [] :=
    (List.append_eq_nil_iff.mp (hq.symm.trans (ht hk))).2
  rw [leave_eq]
  refine (takes_settleBlock h kind stop s).bind fun xs children' t _ hdeals => ?_
  refine (takes_settleScript kind t).bind fun ys₁ run₁ t₁ _ ⟨hrun₁, ht₁⟩ => ?_
  refine (takes_settleStatement hrun₁ _ stop t₁).bind fun ys₂ run₂ t₂ hq₂ hrun₂ => ?_
  refine (takes_takeWhile _ t₂).bind fun ys₃ _ t₃ hq₃ ⟨_, hdocs, _⟩ => ?_
  refine (takes_settleLine hrun₂ source _ stop t₃).bind fun ys₄ run₄ t₄ hq₄ hrun₄ => .pure ?_
  have hnone : plain ys₃ = [] := plain_eq_nil fun p hp => by
    have := (Bool.and_eq_true_iff.mp (hdocs p hp)).1
    rwa [Bool.not_eq_true'] at this
  refine ⟨xs, ys₁ ++ ys₂ ++ ys₃ ++ ys₄, ?_, hdeals, ?_, empty hq₄ (empty hq₃ (empty hq₂ ht₁))⟩
  · simp only [List.append_assoc, List.append_nil]
  · rwa [plain_append, plain_append, plain_append, hnone, List.append_nil]

end Settle

/-! ## The walk -/

mutual

theorem takes_node (source : Array Char) (place : NodePlace) :
    (n : Node) → (s : State) → Takes (node source place n) s fun taken m t =>
      Deals m.preorder (plain taken) ∧ (n.kind = .script → t.queue = [])
  | ⟨kind, payload, children, span, flags, doc, leading, trailing⟩, s => by
      rw [node_eq]
      refine .ite (fun _ => ?_) fun _ => ?_
      · refine (takes_nodes source place kind 0 children s).bind fun ys below t _ hbelow => ?_
        refine (takes_claim t).bind fun xs claimed u _ hclaimed => ?_
        refine (takes_leave source place kind span.stop hbelow u).bind fun zs out v _ h => .pure ?_
        obtain ⟨as, bs, rfl, hdeals, hbehind, hempty⟩ := h
        refine ⟨?_, hempty⟩
        rw [Node.preorder_eq, List.append_nil, ← List.append_assoc, plain_append, plain_append,
          plain_append]
        exact .around hclaimed hbehind hdeals List.perm_append_comm (List.sublist_append_right _ _)
          (List.sublist_append_left _ _)
      · refine (takes_claim s).bind fun xs claimed t _ hclaimed => ?_
        refine (takes_nodes source place kind 0 children t).bind fun ys below u _ hbelow => ?_
        refine (takes_leave source place kind span.stop hbelow u).bind fun zs out v _ h => .pure ?_
        obtain ⟨as, bs, rfl, hdeals, hbehind, hempty⟩ := h
        refine ⟨?_, hempty⟩
        rw [Node.preorder_eq, List.append_nil, ← List.append_assoc, plain_append, plain_append,
          plain_append]
        exact .around hclaimed hbehind hdeals (.refl _) (List.sublist_append_left _ _)
          (List.sublist_append_right _ _)

theorem takes_nodes (source : Array Char) (place : NodePlace) (kind : NodeKind) (index : Nat) :
    (ns : List Node) → (s : State) → Takes (nodes source place kind index ns) s fun taken ms _ =>
      DealsAll ms (plain taken)
  | [], s => by
      rw [nodes]
      exact .pure .nil
  | n :: rest, s => by
      rw [nodes]
      refine (takes_node source (place.child kind index) n s).bind fun xs m t _ ⟨hm, _⟩ => ?_
      refine (takes_nodes source place kind (index + 1) rest t).bind fun ys ms u _ hms => .pure ?_
      rw [List.append_nil, plain_append]
      exact .cons hm hms

end

end Attaching

/-! ## The whole tree -/

section Tree

open Attaching (plain)

/-- The comments that wait are in the order of the text. -/
theorem Backlog.plain_add {options : Doc.Options} (ho : options.documentation = true) (b : Backlog)
    (sink : Sink) (c : Comment) :
    plain (b.add options sink c).1.reversed.reverse =
      plain b.reversed.reverse ++ if c.isPlain then [c] else [] := by
  have hnone : plain b.reversed.reverse = plain b.reversed.reverse ++ [] := (List.append_nil _).symm
  unfold Backlog.add Comment.isPlain
  cases c.kind <;> dsimp only
  case line | block =>
    rw [if_pos ho, List.reverse_cons, Attaching.plain_append]
    rfl
  case doc =>
    split
    · exact hnone
    · dsimp only
      split
      · exact hnone
      · rw [List.reverse_cons, Attaching.plain_append]
        rfl
  all_goals exact hnone

theorem Backlog.plain_foldl {options : Doc.Options} (ho : options.documentation = true)
    (comments : List Comment) (b : Backlog) (sink : Sink) :
    plain (comments.foldl (fun (b, sink) c => b.add options sink c) (b, sink)).1.reversed.reverse =
      plain b.reversed.reverse ++ comments.filter (·.isPlain) := by
  induction comments generalizing b sink with
  | nil => exact (List.append_nil _).symm
  | cons c rest ih =>
      rw [List.foldl_cons]
      show plain (rest.foldl _ ((b.add options sink c).1, (b.add options sink c).2)).1.reversed.reverse = _
      rw [ih, plain_add ho, List.append_assoc, List.filter_cons]
      split <;> rfl

/-- **The plain comments are dealt out to the nodes of a script.** -/
theorem Node.deals_attachComments {root : Node} (hroot : root.kind = .script) {options : Options}
    (ho : options.comments = .all) (comments : List Comment) (source : List Char) (sink : Sink) :
    Deals (root.attachComments comments source options sink).1.preorder
      (comments.filter (·.isPlain)) := by
  have hdoc : options.doc.documentation = true := by
    unfold Options.doc
    rw [ho]
    rfl
  obtain ⟨b, sink', hb⟩ : ∃ b sink', Backlog.ofComments options.doc comments sink = (b, sink') :=
    ⟨_, _, rfl⟩
  have hplain := Backlog.plain_foldl hdoc comments {} sink
  rw [show comments.foldl _ _ = (b, sink') from hb] at hplain
  unfold Node.attachComments
  rw [ho, if_neg (by decide), hb]
  obtain ⟨taken, hq, hdeals, hempty⟩ :=
    Attaching.takes_node source.toArray {} root ⟨b.reversed.reverse, sink'⟩
  rw [hempty hroot, List.append_nil] at hq
  subst hq
  rw [hplain] at hdeals
  exact hdeals.withDoc _

theorem Lowering.kind_script (nodes : List Node) (span : Span) (s : Lowering.State) :
    (Lowering.script nodes span s).1.kind = .script := by
  unfold Lowering.script
  show ((if s.isModule then _ else _ : Lowering Node) s).1.kind = _
  split <;> rfl

/-- The root of a script that was read. -/
theorem Script.kind_root? {s t : Script} {root : Node} (h : s.root? = (some root, t)) :
    root.kind = .script := by
  unfold Script.root? at h
  split at h
  · cases h
  · cases h
    exact Lowering.kind_script _ _ _

end Tree

end EcmaScript
