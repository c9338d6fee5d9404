import EcmaScript.Proofs.Comment.Walk
import EcmaScript.Proofs.Reports

/-!
# Attaching comments only adds warnings

The walk that attaches comments carries the sink along and never looks at it. So the tree it gives and
the warnings it finds are the same for every sink (`Node.attachComments_trace`): comments never depend
on what was reported before, and never take a report back.
-/

namespace EcmaScript

/-- The report that a warning in a documentation comment makes. -/
def Doc.Warning.report (w : Doc.Warning) : Report := ⟨w.position, w.problem.message, .warning⟩

theorem Doc.report_eq (ws : List Doc.Warning) (sink : Sink) :
    Doc.report ws sink = sink.reports (ws.map (·.report)) := by
  unfold Doc.report Sink.reports
  rw [List.foldl_map]
  rfl

theorem Doc.report_append (ws vs : List Doc.Warning) (sink : Sink) :
    Doc.report (ws ++ vs) sink = Doc.report vs (Doc.report ws sink) := List.foldl_append

-- An instance for a part of the walk is as large as the part.
set_option synthInstance.maxSize 2000

namespace Attaching

/-- A part of the walk that adds warnings to the sink and does nothing else with it. -/
class Warns {α : Type} (p : Attaching α) : Prop where
  trace : ∀ s, ∃ ws, ∀ sink,
    p { s with sink := sink } = ((p s).1, { (p s).2 with sink := Doc.report ws sink })

namespace Warns

variable {α β : Type}

/-- A part of the walk that leaves the sink alone. -/
theorem silent {p : Attaching α}
    (h : ∀ s sink, p { s with sink := sink } = ((p s).1, { (p s).2 with sink := sink })) : Warns p :=
  ⟨fun s => ⟨[], fun sink => h s sink⟩⟩

instance (a : α) : Warns (pure a : Attaching α) := silent fun _ _ => rfl

instance {p : Attaching α} {f : α → Attaching β} [hp : Warns p] [hf : ∀ a, Warns (f a)] :
    Warns (p >>= f) := by
  refine ⟨fun s => ?_⟩
  obtain ⟨ws, hws⟩ := hp.trace s
  obtain ⟨vs, hvs⟩ := (hf (p s).1).trace (p s).2
  refine ⟨ws ++ vs, fun sink => ?_⟩
  show f (p { s with sink := sink }).1 (p { s with sink := sink }).2 = _
  rw [hws, Doc.report_append]
  exact hvs (Doc.report ws sink)

instance {c : Prop} [Decidable c] {p q : Attaching α} [hp : Warns p] [hq : Warns q] :
    Warns (if c then p else q) := by
  split
  · exact hp
  · exact hq

/-! ## Before a node -/

/-- Reading a documentation comment again gives the same warnings for every sink. -/
theorem readDoc_trace (place : NodePlace) (p : PendingComment) (sink : Sink) :
    ∃ ws, ∀ sink', readDoc place p sink' = ((readDoc place p sink).1, Doc.report ws sink') := by
  unfold readDoc
  split
  · exact ⟨_, fun _ => rfl⟩
  · exact ⟨[], fun _ => rfl⟩

theorem claimFrom_trace (source : Array Char) (n : Node) (place : NodePlace) (claimed : Claim)
    (queue : List PendingComment) (sink : Sink) :
    ∃ ws, ∀ sink', claimFrom source n place claimed queue sink' =
      ((claimFrom source n place claimed queue sink).1,
        { (claimFrom source n place claimed queue sink).2 with sink := Doc.report ws sink' }) := by
  induction queue generalizing claimed sink with
  | nil => exact ⟨[], fun _ => rfl⟩
  | cons p rest ih =>
      unfold claimFrom
      split
      · exact ⟨[], fun _ => rfl⟩
      · split
        · split
          · exact ⟨[], fun _ => rfl⟩
          · exact ih claimed sink
          · obtain ⟨ws, hws⟩ := readDoc_trace place p sink
            obtain ⟨vs, hvs⟩ := ih { claimed with doc := (readDoc place p sink).1 } (readDoc place p sink).2
            refine ⟨ws ++ vs, fun sink' => ?_⟩
            rw [hws sink', Doc.report_append]
            exact hvs _
        · split
          · exact ih _ sink
          · exact ⟨[], fun _ => rfl⟩

instance (source : Array Char) (n : Node) (place : NodePlace) : Warns (claim source n place) :=
  ⟨fun s => claimFrom_trace source n place {} s.queue s.sink⟩

/-! ## Behind a node -/

instance (p : PendingComment → Bool) : Warns (takeWhile p) := silent fun _ _ => rfl

instance (stop : Nat) (children : List Node) : Warns (leaveBlock stop children) := by
  unfold leaveBlock
  infer_instance

instance : Warns leaveScript := by
  unfold leaveScript
  infer_instance

instance (stop : Nat) (trailing : Option CommentRun) : Warns (leaveStatement stop trailing) := by
  unfold leaveStatement
  infer_instance

instance (source : Array Char) (stop : Nat) (trailing : Option CommentRun) :
    Warns (sameLine source stop trailing) := by
  refine silent fun s sink => ?_
  obtain ⟨queue, before⟩ := s
  cases queue with
  | nil => rfl
  | cons p rest =>
      dsimp only
      rw [sameLine_cons, sameLine_cons]
      split <;> rfl

instance (source : Array Char) (place : NodePlace) (kind : NodeKind) (stop : Nat)
    (children : List Node) : Warns (leave source place kind stop children) := by
  unfold leave
  dsimp only
  infer_instance

end Warns

/-! ## The walk -/

mutual

theorem warns_node (source : Array Char) (place : NodePlace) :
    (n : Node) → Warns (node source place n)
  | ⟨kind, payload, children, span, flags, doc, leading, trailing⟩ => by
      have hn := warns_nodes source place kind 0 children
      rw [node]
      infer_instance

theorem warns_nodes (source : Array Char) (place : NodePlace) (kind : NodeKind) (index : Nat) :
    (ns : List Node) → Warns (nodes source place kind index ns)
  | [] => by
      rw [nodes]
      infer_instance
  | n :: rest => by
      have hn := warns_node source (place.child kind index) n
      have hr := warns_nodes source place kind (index + 1) rest
      rw [nodes]
      infer_instance

end

end Attaching

/-! ## The whole tree -/

/-- One comment gives the same entry and the same warnings for every sink. -/
theorem Backlog.add_trace (options : Doc.Options) (b : Backlog) (c : Comment) :
    ∃ b' ws, ∀ sink, b.add options sink c = (b', Doc.report ws sink) := by
  unfold Backlog.add
  split
  · split
    · exact ⟨_, _, fun _ => rfl⟩
    · exact ⟨_, _, fun _ => rfl⟩
  · exact ⟨_, [], fun _ => rfl⟩
  · split <;> exact ⟨_, [], fun _ => rfl⟩
  · split <;> exact ⟨_, [], fun _ => rfl⟩
  · exact ⟨_, [], fun _ => rfl⟩
  · exact ⟨_, [], fun _ => rfl⟩

theorem Backlog.foldl_add_trace (options : Doc.Options) (b : Backlog) (comments : List Comment) :
    ∃ b' ws, ∀ sink,
      comments.foldl (fun (b, sink) c => b.add options sink c) (b, sink) =
        (b', Doc.report ws sink) := by
  induction comments generalizing b with
  | nil => exact ⟨b, [], fun _ => rfl⟩
  | cons c rest ih =>
      obtain ⟨b₁, ws, hadd⟩ := b.add_trace options c
      obtain ⟨b₂, vs, hrest⟩ := ih b₁
      refine ⟨b₂, ws ++ vs, fun sink => ?_⟩
      rw [List.foldl_cons, Doc.report_append, ← hrest]
      show rest.foldl _ (b.add options sink c) = _
      rw [hadd]

/-- **Attaching comments only adds warnings**, the same ones whatever was reported before. -/
theorem Node.attachComments_trace (root : Node) (comments : List Comment) (source : List Char)
    (options : Options) :
    ∃ n ws, ∀ sink, root.attachComments comments source options sink = (n, Doc.report ws sink) := by
  unfold Node.attachComments
  split
  · exact ⟨root, [], fun _ => rfl⟩
  · obtain ⟨b, ws, hb⟩ := Backlog.foldl_add_trace options.doc {} comments
    let start : Attaching.State := ⟨b.reversed.reverse, default⟩
    obtain ⟨vs, hvs⟩ := (Attaching.warns_node source.toArray {} root).trace start
    let n := (Attaching.node source.toArray {} root start).1
    refine ⟨{ n with doc := b.fileInfo.or n.doc }, ws ++ vs, fun sink => ?_⟩
    have hs : Backlog.ofComments options.doc comments sink = (b, Doc.report ws sink) := hb sink
    rw [hs, Doc.report_append]
    dsimp only
    rw [show Attaching.node source.toArray {} root ⟨b.reversed.reverse, Doc.report ws sink⟩ = _ from
      hvs (Doc.report ws sink)]

end EcmaScript
