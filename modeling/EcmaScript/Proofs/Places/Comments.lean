import EcmaScript.Proofs.Comment.Trace
import EcmaScript.Proofs.Comment.Walk
import EcmaScript.Proofs.Places.Doc
import EcmaScript.Proofs.Places.Node

/-!
# Attached comments at places of the text

The walk that attaches comments takes them from a queue of comments of the text. What it attaches to a node
begins where one of them begins and ends where one of them ends, and it warns at places that are shown in
the text. `Sound` is the class of the steps of the walk for which this holds.

## Contents

* `State.Sound`, `Leads`, `Sound`: the queue, the way of the walk, and the class of its steps.
* `Sound.node`: the walk, by recursion over the tree.
* `Node.inText_attachComments`: a tree with its comments.
-/

namespace EcmaScript

/-! ## Comments that wait and comments that are merged -/

instance : HasPlaces PendingComment := ⟨fun text p => p.comment.Located text⟩

instance : HasPlaces CommentRun := ⟨fun text r => r.start.Located text ∧ r.stop ≤ text.length⟩

instance : HasPlaces Attaching.Claim := ⟨fun text claimed => HasPlaces.located text claimed.leading⟩

section Values

variable {text : List Char}

/-- A run begins with its first comment. -/
theorem InText.run_ofComment {c : Comment} (h : c.Located text) (isInline : Bool) :
    InText text (CommentRun.ofComment c isInline) := ⟨h.span⟩

/-- A run ends with its last comment. -/
theorem InText.run_push {r : CommentRun} (hr : InText text r) {c : Comment} (h : c.Located text) :
    InText text (r.push c) := ⟨hr.located.1, h.span.2⟩

instance {r : CommentRun} [h : InText text r] : InText text r.attached :=
  ⟨Span.located_between h.located.1 h.located.2⟩

instance {r : Option CommentRun} [h : InText text r] : InText text (r.map (·.attached)) := by
  cases r with
  | none => exact InText.none
  | some r =>
      have := InText.some_iff.mp h
      exact inferInstanceAs (InText text (some r.attached))

instance {claimed : Attaching.Claim} [h : InText text claimed] : InText text claimed.leading :=
  ⟨h.located⟩

instance {doc : Option Doc.Info} {leading : Option CommentRun} [h : InText text leading] :
    InText text (Attaching.Claim.mk doc leading) := ⟨h.located⟩

end Values

-- An instance for a part of the walk is as large as the part.
set_option synthInstance.maxSize 2000

namespace Attaching

/-! ## Steps of the walk -/

/-- The comments that have not been consumed are comments of the text. -/
def State.Sound (text : List Char) (s : State) : Prop := InText text s.queue

/-- The walk comes from `s` to the sound state `t` with warnings that are shown in the text. -/
structure Leads (text : List Char) (s t : State) : Prop where
  sound : t.Sound text
  sink : ∃ ws, Doc.AllStand (·.Shown text) ws ∧ t.sink = Doc.report ws s.sink

/-- What a step from the state `s` may end in. -/
def Ends (text : List Char) {α : Type} [HasPlaces α] (s : State) (x : α × State) : Prop :=
  InText text x.1 ∧ Leads text s x.2

/-- The steps of the walk that stay in the text. -/
class Sound (text : List Char) {α : Type} [HasPlaces α] (p : Attaching α) : Prop where
  run : ∀ {s : State}, s.Sound text → Ends text s (p s)

variable {text : List Char}

section Leads

variable {s t u : State}

theorem Leads.silent (h : t.Sound text) (hs : t.sink = s.sink) : Leads text s t :=
  ⟨h, [], Doc.allStand_nil, hs⟩

theorem Leads.trans (h : Leads text s t) (h' : Leads text t u) : Leads text s u := by
  obtain ⟨ws, hws, hs⟩ := h.sink
  obtain ⟨vs, hvs, ht⟩ := h'.sink
  exact ⟨h'.sound, ws ++ vs, hws.append hvs, by rw [ht, hs, Doc.report_append]⟩

/-- A step that goes on from where the walk has come to. -/
theorem Leads.ends {α : Type} [HasPlaces α] {x : α × State} (h : Leads text s t)
    (h' : Ends text t x) : Ends text s x := ⟨h'.1, h.trans h'.2⟩

end Leads

namespace Sound

variable {α β : Type} [HasPlaces α] [HasPlaces β] {p : Attaching α}

/-- What is known of the result of a step whatever the state, the steps behind it may count on. -/
theorem bind_gives (P : α → Prop) {f : α → Attaching β} (hp : Sound text p) (hP : ∀ s, P (p s).1)
    (hf : ∀ a : TextValue text α, P a.val → Sound text (f a.val)) : Sound text (p >>= f) := by
  constructor
  intro s hs
  obtain ⟨ha, ht⟩ := hp.run hs
  exact ht.ends ((hf ⟨(p s).1, ha⟩ (hP s)).run ht.sound)

theorem bind {f : α → Attaching β} (hp : Sound text p)
    (hf : ∀ a : TextValue text α, Sound text (f a.val)) : Sound text (p >>= f) :=
  bind_gives (fun _ => True) hp (fun _ => True.intro) fun a _ => hf a

instance {f : α → Attaching β} [hp : Sound text p]
    [hf : ∀ a : TextValue text α, Sound text (f a.val)] : Sound text (p >>= f) := bind hp hf

instance {a : α} [ha : InText text a] : Sound text (pure a : Attaching α) :=
  ⟨fun hs => ⟨ha, .silent hs rfl⟩⟩

instance {c : Prop} [Decidable c] {q : Attaching α} [hp : Sound text p] [hq : Sound text q] :
    Sound text (if c then p else q) := by
  split
  · exact hp
  · exact hq

/-! ## Before a node -/

/-- Consuming a documentation comment, which may be read again. -/
theorem readDoc (place : NodePlace) {p : PendingComment} {rest : List PendingComment}
    (hp : InText text p) (hrest : InText text rest) (sink : Sink) :
    Leads text ⟨p :: rest, sink⟩ ⟨rest, (readDoc place p sink).2⟩ := by
  unfold Attaching.readDoc
  split
  · exact ⟨hrest, _, Comment.Located.shown_parseInlineType hp.located, rfl⟩
  · exact .silent hrest rfl

theorem addLeading {leading : Option CommentRun} (hl : InText text leading) {c : Comment}
    (h : c.Located text) (isInline : Bool) : InText text (addLeading leading c isInline) := by
  cases leading with
  | none => exact .run_ofComment h isInline
  | some run => exact ⟨((InText.some_iff.mp hl).run_push h).located⟩

theorem claimFrom (source : Array Char) (n : Node) (place : NodePlace) {claimed : Claim}
    (hc : InText text claimed) {queue : List PendingComment} (hq : InText text queue) (sink : Sink) :
    Ends text ⟨queue, sink⟩ (claimFrom source n place claimed queue sink) := by
  induction queue generalizing claimed sink with
  | nil => exact ⟨hc, .silent hq rfl⟩
  | cons p rest ih =>
      obtain ⟨hp, hrest⟩ := InText.cons_iff.mp hq
      -- the walk stops here, or the comment is consumed
      have hstop : Ends text ⟨p :: rest, sink⟩ (claimed, ⟨p :: rest, sink⟩) := ⟨hc, .silent hq rfl⟩
      have hdrop : Leads text ⟨p :: rest, sink⟩ ⟨rest, sink⟩ := .silent hrest rfl
      unfold Attaching.claimFrom
      split
      · exact hstop
      · split
        · split
          · exact hstop
          · exact hdrop.ends (ih hc hrest sink)
          · have hdoc : InText text { claimed with doc := (Attaching.readDoc place p sink).1 } :=
              ⟨hc.located⟩
            exact (readDoc place hp hrest sink).ends (ih hdoc hrest _)
        · split
          · have hleading : InText text claimed.leading := inferInstance
            have := addLeading hleading hp.located
            exact hdrop.ends (ih inferInstance hrest sink)
          · exact hstop

instance (source : Array Char) (n : Node) (place : NodePlace) : Sound text (claim source n place) :=
  have hempty : InText text ({} : Claim) := ⟨nofun⟩
  ⟨fun hs => claimFrom source n place hempty hs _⟩

/-! ## Behind a node -/

instance (p : PendingComment → Bool) : Sound text (takeWhile p) := by
  constructor
  intro s hs
  have hall : ∀ c ∈ s.queue, c.comment.Located text := hs.located
  refine ⟨⟨fun c hc => hall c ((List.takeWhile_sublist _).subset hc)⟩, .silent ⟨fun c hc => ?_⟩ rfl⟩
  exact hall c ((List.dropWhile_sublist _).subset hc)

instance {comments : List PendingComment} [h : InText text comments] (p : PendingComment → Bool) :
    InText text (comments.filter p) := ⟨fun c hc => h.located c (List.mem_filter.mp hc).1⟩

theorem addTrailing (isInline : Bool) (trailing : Option CommentRun) (p : PendingComment)
    (ht : InText text trailing) (hp : InText text p) :
    InText text (addTrailing isInline trailing p) := by
  cases trailing with
  | none => exact InText.some_iff.mpr (.run_ofComment hp.located isInline)
  | some run => exact InText.some_iff.mpr ((InText.some_iff.mp ht).run_push hp.located)

theorem addBlockTrailing (trailing : Option AttachedComment) (p : PendingComment)
    (ht : InText text trailing) (hp : InText text p) : InText text (addBlockTrailing trailing p) := by
  have hspan : p.comment.span.Located text := Comment.Located.span hp.located
  cases trailing with
  | none =>
      have := InText.run_ofComment hp.located false
      have hrun : InText text (CommentRun.ofComment p.comment false).attached := inferInstance
      exact ⟨fun _ hm => Option.mem_some.mp hm ▸ hrun.located⟩
  | some c =>
      have hc : c.span.Located text := (InText.some_iff.mp ht).located
      exact ⟨fun _ hm => Option.mem_some.mp hm ▸ hc.withStop hspan.2⟩

/-- Merging further comments of the text. -/
theorem foldl {γ : Type} [HasPlaces γ] {add : γ → PendingComment → γ} {comments : List PendingComment}
    (hadd : ∀ c p, InText text c → InText text p → InText text (add c p))
    (h : InText text comments) {c : γ} (hc : InText text c) : InText text (comments.foldl add c) := by
  induction comments generalizing c with
  | nil => exact hc
  | cons p rest ih =>
      obtain ⟨hp, hrest⟩ := InText.cons_iff.mp h
      exact ih hrest (hadd c p hc hp)

theorem attachToLast {comments : List PendingComment} (h : InText text comments) {ns : List Node}
    (hn : InText text ns) : InText text (attachToLast comments ns) := by
  fun_induction Attaching.attachToLast comments ns with
  | case1 => exact hn
  | case2 n =>
      have := (InText.cons_iff.mp hn).1
      have := foldl addBlockTrailing h (c := n.trailing) inferInstance
      infer_instance
  | case3 n rest _ ih =>
      obtain ⟨hfirst, hrest⟩ := InText.cons_iff.mp hn
      exact InText.cons_iff.mpr ⟨hfirst, ih hrest⟩

instance (stop : Nat) (children : List Node) [h : InText text children] :
    Sound text (leaveBlock stop children) := by
  have hlast (inside : TextValue text (List PendingComment)) :
      InText text (Attaching.attachToLast (inside.val.filter (·.isPlain)) children) :=
    attachToLast inferInstance h
  unfold leaveBlock
  infer_instance

instance : Sound text leaveScript := by
  have hmerge (left : TextValue text (List PendingComment)) :
      InText text ((left.val.filter (·.isPlain)).foldl (Attaching.addTrailing false) none) :=
    foldl (addTrailing false) inferInstance inferInstance
  unfold leaveScript
  infer_instance

instance (stop : Nat) (trailing : Option CommentRun) [h : InText text trailing] :
    Sound text (leaveStatement stop trailing) := by
  have hmerge (inside : TextValue text (List PendingComment)) :
      InText text (inside.val.foldl (Attaching.addTrailing true) trailing) :=
    foldl (addTrailing true) inferInstance h
  unfold leaveStatement
  infer_instance

instance (source : Array Char) (stop : Nat) (trailing : Option CommentRun) [h : InText text trailing] :
    Sound text (sameLine source stop trailing) := by
  constructor
  intro s hs
  obtain ⟨queue, sink⟩ := s
  cases queue with
  | nil => exact ⟨h, .silent hs rfl⟩
  | cons p rest =>
      obtain ⟨hp, hrest⟩ := InText.cons_iff.mp hs
      rw [sameLine_cons]
      split
      · exact ⟨addTrailing true trailing p h hp, .silent hrest rfl⟩
      · exact ⟨h, .silent hs rfl⟩

instance (source : Array Char) (place : NodePlace) (kind : NodeKind) (stop : Nat) (children : List Node)
    [InText text children] : Sound text (leave source place kind stop children) := by
  unfold leave
  dsimp only
  infer_instance

/-! ## The walk -/

/-- What the walk makes of a node in the end, whose children are where they were. -/
theorem finish (source : Array Char) (place : NodePlace) {n : Node} (hn : InText text n)
    (below : List Node) [InText text below] (hb : below.map (·.span) = n.children.map (·.span))
    (claimed : Claim) [InText text claimed] :
    Sound text (do
      let (below, behind) ← leave source place n.kind n.span.stop below
      return { n with
        children := below, doc := claimed.doc, leading := claimed.leading.map (·.attached)
        trailing := behind.map (·.attached) } : Attaching Node) := by
  refine bind_gives (fun out => out.1.map (·.span) = n.children.map (·.span)) inferInstance
    (fun s => (spans_leave source place n.kind n.span.stop below s).trans hb) fun out ho => ?_
  have (claims behind : Option AttachedComment) (doc : Option Doc.Info) [InText text claims]
      [InText text behind] : InText text { n with
        children := out.val.1, doc := doc, leading := claims, trailing := behind } := .inPlace hn ho
  infer_instance

mutual

theorem node (source : Array Char) (place : NodePlace) :
    (n : Node) → InText text n → Sound text (Attaching.node source place n)
  | ⟨kind, payload, children, span, flags, doc, before, after⟩, h => by
      have hnodes := nodes source place kind 0 children (InText.node_iff.mp h).2
      have hspans := spans_nodes source place kind 0 children
      rw [node_eq]
      split
      · refine bind_gives (·.map (·.span) = children.map (·.span)) hnodes hspans fun below hb => ?_
        exact bind inferInstance fun claimed => finish source place h below.val hb claimed.val
      · refine bind inferInstance fun claimed => ?_
        exact bind_gives (·.map (·.span) = children.map (·.span)) hnodes hspans fun below hb =>
          finish source place h below.val hb claimed.val

theorem nodes (source : Array Char) (place : NodePlace) (kind : NodeKind) (index : Nat) :
    (ns : List Node) → InText text ns → Sound text (Attaching.nodes source place kind index ns)
  | [], _ => by
      rw [Attaching.nodes]
      infer_instance
  | n :: rest, h => by
      obtain ⟨hn, hr⟩ := InText.cons_iff.mp h
      have hn := node source (place.child kind index) n hn
      have hr := nodes source place kind (index + 1) rest hr
      rw [Attaching.nodes]
      infer_instance

end

end Sound

end Attaching

/-! ## The whole tree -/

section Backlog

variable {text : List Char}

/-- Of a comment of the text an entry is made, if any, and its warnings are shown in the text. -/
theorem Backlog.add_located (options : Doc.Options) {b : Backlog} (hb : InText text b.reversed)
    (sink : Sink) {c : Comment} (hc : c.Located text) :
    InText text (b.add options sink c).1.reversed ∧
      ∃ ws, Doc.AllStand (·.Shown text) ws ∧ (b.add options sink c).2 = Doc.report ws sink := by
  have hentry (info : Option Doc.Info) : InText text (⟨c, info⟩ :: b.reversed : List PendingComment) :=
    InText.cons_iff.mpr ⟨⟨hc⟩, hb⟩
  have hshown := hc.shown_parse options
  unfold Backlog.add
  split
  · split
    next heq =>
      rw [heq] at hshown
      exact ⟨hb, _, hshown, rfl⟩
    next heq =>
      rw [heq] at hshown
      refine ⟨?_, _, hshown, rfl⟩
      dsimp only
      split
      · exact hb
      · exact hentry _
  · exact ⟨hb, [], Doc.allStand_nil, rfl⟩
  iterate 2
    · split
      · exact ⟨hentry none, [], Doc.allStand_nil, rfl⟩
      · exact ⟨hb, [], Doc.allStand_nil, rfl⟩
  · exact ⟨hb, [], Doc.allStand_nil, rfl⟩
  · exact ⟨hb, [], Doc.allStand_nil, rfl⟩

theorem Backlog.foldl_add_located (options : Doc.Options) {comments : List Comment}
    (hc : ∀ c ∈ comments, c.Located text) {b : Backlog} (hb : InText text b.reversed) (sink : Sink) :
    ∃ b' ws, comments.foldl (fun (b, sink) c => b.add options sink c) (b, sink) =
      (b', Doc.report ws sink) ∧ InText text b'.reversed ∧ Doc.AllStand (·.Shown text) ws := by
  induction comments generalizing b sink with
  | nil => exact ⟨b, [], rfl, hb, Doc.allStand_nil⟩
  | cons c rest ih =>
      obtain ⟨hfirst, hrest⟩ := List.forall_mem_cons.mp hc
      obtain ⟨hb', ws, hws, hsink⟩ := Backlog.add_located options hb sink hfirst
      obtain ⟨b'', vs, hrun, hb'', hvs⟩ := ih hrest hb' (Doc.report ws sink)
      refine ⟨b'', ws ++ vs, ?_, hb'', hws.append hvs⟩
      rw [List.foldl_cons, Doc.report_append, ← hrun, ← hsink]

/-- **Attaching the comments of the text to a tree of the text** gives a tree of the text, and warnings
that are shown in it. -/
theorem Node.inText_attachComments {root : Node} (hroot : InText text root) {comments : List Comment}
    (hc : ∀ c ∈ comments, c.Located text) (source : List Char) (o : Options) (sink : Sink) :
    ∃ n ws, root.attachComments comments source o sink = (n, Doc.report ws sink) ∧
      InText text n ∧ Doc.AllStand (·.Shown text) ws := by
  unfold Node.attachComments
  split
  · exact ⟨root, [], rfl, hroot, Doc.allStand_nil⟩
  · obtain ⟨b, ws, hb, hqueue, hws⟩ := Backlog.foldl_add_located o.doc hc (b := {}) .nil sink
    let start : Attaching.State := ⟨b.reversed.reverse, Doc.report ws sink⟩
    have hstart : start.Sound text := inferInstanceAs (InText text b.reversed.reverse)
    obtain ⟨hin, hleads⟩ := (Attaching.Sound.node source.toArray {} root hroot).run hstart
    obtain ⟨vs, hvs, hsink⟩ := hleads.sink
    let n := (Attaching.node source.toArray {} root start).1
    refine ⟨{ n with doc := b.fileInfo.or n.doc }, ws ++ vs, ?_, inferInstance, hws.append hvs⟩
    rw [show Backlog.ofComments o.doc comments sink = _ from hb, Doc.report_append, ← hsink]
    rfl

end Backlog

end EcmaScript
