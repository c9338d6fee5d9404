import EcmaScript.Proofs.Comment.Walk
import EcmaScript.Proofs.Script.Findings

/-!
# Comments change nothing but comments

Which comments are asked for, and what documentation may say, is looked at only behind the reading. So a
source is read and lowered in the same way under every choice (`Script.readAll_asking`); then the walk over
the finished tree writes to the sides of the nodes and nowhere else (`Node.bare_attachComments`), and only
adds warnings. What is left of a parse without the comments is therefore the same for every choice
(`parse_comments`).

## Contents

* `Node.bare`: a tree without its comments.
* `Options.asking`, `Grammar.State.asking`, `Script.asking`: the same with other choices about comments.
* `Grammar.Composed.run_asking`, `Script.readAll_asking`: one production, and the whole script.
* `Node.bare_attachComments`: the walk.
-/

namespace EcmaScript

/-! ## Trees without comments -/

namespace Node

mutual

/-- The tree without the comments attached to its nodes. -/
def bare : Node → Node
  | ⟨kind, payload, children, span, flags, _, _, _⟩ =>
    ⟨kind, payload, bareAll children, span, flags, none, none, none⟩

def bareAll : List Node → List Node
  | [] => []
  | n :: rest => bare n :: bareAll rest

end

theorem children_bare (n : Node) : n.bare.children = bareAll n.children := by
  cases n
  rw [bare]

/-- What stands at the sides of a node does not count. -/
theorem bare_congr {n m : Node} (hk : n.kind = m.kind) (hp : n.payload = m.payload)
    (hc : bareAll n.children = bareAll m.children) (hs : n.span = m.span) (hf : n.flags = m.flags) :
    n.bare = m.bare := by
  cases n
  cases m
  cases hk
  cases hp
  cases hs
  cases hf
  rw [bare, bare]
  exact congrArg (Node.mk _ _ · _ _ _ _ _) hc

theorem spans_bareAll (ns : List Node) : (bareAll ns).map (·.span) = ns.map (·.span) := by
  induction ns with
  | nil => rfl
  | cons n ns ih =>
      cases n
      rw [bareAll, List.map_cons, ih, bare]
      rfl

theorem codeStop_bare (root : Option Node) : codeStop (root.map bare) = codeStop root := by
  have hlast (root : Node) : (bareAll root.children).getLast?.map (·.span) =
      root.children.getLast?.map (·.span) := by
    rw [← List.getLast?_map, ← List.getLast?_map, spans_bareAll]
  unfold codeStop
  cases root with
  | none => rfl
  | some n =>
      obtain ⟨kind, payload, children, span, flags, doc, leading, trailing⟩ := n
      have h := hlast ⟨kind, payload, children, span, flags, doc, leading, trailing⟩
      rw [Option.map_some, bare]
      dsimp only [Option.bind_some] at h ⊢
      cases hx : (bareAll children).getLast? <;> cases hy : children.getLast? <;> rw [hx, hy] at h <;>
        simp_all

end Node

/-! ## The walk -/

namespace Attaching

open Node (bare bareAll bare_congr)

theorem bareAll_attachToLast (comments : List PendingComment) (ns : List Node) :
    bareAll (attachToLast comments ns) = bareAll ns := by
  fun_induction attachToLast comments ns with
  | case1 => rfl
  | case2 n =>
      rw [bareAll, bareAll]
      exact congrArg (· :: _) (bare_congr rfl rfl rfl rfl rfl)
  | case3 n rest _ ih => rw [bareAll, bareAll, ih]

theorem bareAll_leave (source : Array Char) (place : NodePlace) (kind : NodeKind) (stop : Nat)
    (children : List Node) (s : State) :
    bareAll (leave source place kind stop children s).1.1 = bareAll children := by
  rw [leave_eq]
  show bareAll (settleBlock kind stop children s).1 = _
  unfold settleBlock leaveBlock
  split
  · split
    · rfl
    · exact bareAll_attachToLast _ children
  · rfl

mutual

theorem bare_node (source : Array Char) (place : NodePlace) :
    (n : Node) → (s : State) → (node source place n s).1.bare = n.bare
  | ⟨kind, payload, children, span, flags, doc, leading, trailing⟩, s => by
      have hbelow := bareAll_nodes source place kind 0 children
      rw [node_eq]
      split
      · refine bare_congr rfl rfl ?_ rfl rfl
        exact (bareAll_leave source place kind span.stop _ _).trans (hbelow s)
      · refine bare_congr rfl rfl ?_ rfl rfl
        exact (bareAll_leave source place kind span.stop _ _).trans (hbelow _)

theorem bareAll_nodes (source : Array Char) (place : NodePlace) (kind : NodeKind) (index : Nat) :
    (ns : List Node) → (s : State) → bareAll (nodes source place kind index ns s).1 = bareAll ns
  | [], s => by
      rw [nodes]
      rfl
  | n :: rest, s => by
      rw [nodes, bareAll, ← bare_node source (place.child kind index) n s,
        ← bareAll_nodes source place kind (index + 1) rest (node source (place.child kind index) n s).2]
      rfl

end

end Attaching

/-- **Attaching comments writes to the sides of the nodes and nowhere else.** -/
theorem Node.bare_attachComments (root : Node) (comments : List Comment) (source : List Char)
    (o : Options) (sink : Sink) :
    (root.attachComments comments source o sink).1.bare = root.bare := by
  unfold attachComments
  split
  · rfl
  · generalize Backlog.ofComments o.doc comments sink = x
    rw [← Attaching.bare_node source.toArray {} root ⟨x.1.reversed.reverse, x.2⟩]
    exact bare_congr rfl rfl rfl rfl rfl

theorem bare_attached (root : Option Node) (comments : List Comment) (source : String) (o : Options)
    (sink : Sink) : (attached root comments source o sink).1.map Node.bare = root.map Node.bare := by
  cases root with
  | none => rfl
  | some n => exact congrArg some (n.bare_attachComments comments source.toList o sink)

/-! ## The reading -/

/-- The options with other choices about comments. -/
def Options.asking (o : Options) (c : CommentPolicy) (allowed : Bool) : Options :=
  { o with comments := c, unawareCodeAllowed := allowed }

namespace Grammar

variable {α β : Type} {p : Production α} {s t : State} {c : CommentPolicy} {allowed : Bool}

/-- The state of a parse that asks for other comments. -/
def State.asking (s : State) (c : CommentPolicy) (allowed : Bool) : State :=
  { s with options := s.options.asking c allowed }

/-- What a run gives in a parse that asks for other comments. -/
def asked (c : CommentPolicy) (allowed : Bool) :
    EStateM.Result Failure State α → EStateM.Result Failure State α
  | .ok a t => .ok a (t.asking c allowed)
  | .error e t => .error e (t.asking c allowed)

theorem State.readAgain_asking (s : State) (r : Rereading) :
    (s.asking c allowed).readAgain r = (s.readAgain r).asking c allowed := by
  unfold readAgain asking
  dsimp only
  split <;> rfl

theorem asked_bind {f : α → Production β} (hp : p (s.asking c allowed) = asked c allowed (p s))
    (hf : ∀ a t, p s = .ok a t → f a (t.asking c allowed) = asked c allowed (f a t)) :
    (p >>= f) (s.asking c allowed) = asked c allowed ((p >>= f) s) := by
  cases h : p s with
  | ok a t =>
      rw [h] at hp
      rw [bind_ok h, bind_ok hp]
      exact hf a t h
  | error e t =>
      rw [h] at hp
      rw [bind_error h, bind_error hp]
      rfl

/-- **A production does not ask which comments are asked for.** -/
theorem Composed.run_asking (h : Composed p) (s : State) :
    p (s.asking c allowed) = asked c allowed (p s) := by
  induction h generalizing s with
  | pure a => rfl
  | look f => rfl
  | advance => rfl
  | reread r =>
      rw [reread_eq, reread_eq, State.readAgain_asking]
      rfl
  | fail q position _ => rfl
  | trailingComma comma place =>
      unfold noteTrailingComma
      refine asked_bind rfl fun _ t _ => ?_
      show (if Edition.es2017 ≤ t.options.edition then _ else _ : Production Unit) _ = asked c allowed
        ((if Edition.es2017 ≤ t.options.edition then _ else _ : Production Unit) _)
      split <;> rfl
  | @within α p change _ ih =>
      have hrun := ih { s with context := change s.context }
      unfold Grammar.within
      rw [show p { s.asking c allowed with context := change (s.asking c allowed).context } = _ from hrun]
      cases p { s with context := change s.context } <;> rfl
  | bind _ _ ihp ihf => exact asked_bind (ihp s) fun a t _ => ihf a t
  | @reporting α p handler _ _ ihp ihh =>
      unfold Grammar.reporting
      rw [ihp s]
      cases p s with
      | ok a t => rfl
      | error e t =>
          show (if t.options.keepGoing then handler _ else _) = asked c allowed
            (if t.options.keepGoing then handler _ else _)
          split
          · exact ihh { t with journal := t.journal.failure e }
          · rfl

theorem scriptStatement_asking (depth : Nat) (s : State) :
    scriptStatement (read depth) (s.asking c allowed) =
      asked c allowed (scriptStatement (read depth) s) := by
  rw [scriptStatement_eq, scriptStatement_eq, (composed_read depth (.statement .topLevel)).run_asking s]
  cases read depth (.statement .topLevel) s with
  | ok statement t => rfl
  | error e t =>
      show recover s.current.start e (t.asking c allowed) = asked c allowed (recover s.current.start e t)
      rw [recover_eq, recover_eq]
      show (if t.options.keepGoing then scriptPlaceholder _ else return none : Production _)
          ({ t.flushed with journal := t.flushed.journal.failure e }.asking c allowed) = _
      split
      · exact Composed.run_asking inferInstance _
      · rfl

end Grammar

namespace Script

variable {c : CommentPolicy} {allowed : Bool}

/-- The script of a parse that asks for other comments. -/
def asking (s : Script) (c : CommentPolicy) (allowed : Bool) : Script :=
  { s with grammar := s.grammar.asking c allowed }

theorem ofText_asking (name source : String) (o : Options) :
    ofText name source (o.asking c allowed) = (ofText name source o).asking c allowed := rfl

/-- **One statement**, read and lowered. -/
theorem step_asking (depth : Nat) (s : Script) :
    step depth (s.asking c allowed) = (step depth s).asking c allowed := by
  unfold step
  rw [show Grammar.scriptStatement _ (s.asking c allowed).grammar = _ from
    Grammar.scriptStatement_asking depth s.grammar]
  cases Grammar.scriptStatement (Grammar.read depth) s.grammar with
  | ok statement t => cases statement <;> rfl
  | error e t => rfl

/-- **Any number of statements**, by induction on that number. -/
theorem run_asking (depth limit : Nat) (s : Script) :
    run depth limit (s.asking c allowed) = (run depth limit s).asking c allowed := by
  induction limit generalizing s with
  | zero => rfl
  | succ limit ih =>
      unfold run
      show (if s.stopped || s.grammar.current.isEnd then _ else _) = _
      split
      · rfl
      · rw [step_asking, ih]

theorem readAll_asking (length : Nat) (s : Script) :
    readAll length (s.asking c allowed) = (readAll length s).asking c allowed := by
  unfold readAll
  rw [run_asking, flush_eq, flush_eq]
  rfl

theorem root?_asking (s : Script) :
    (s.asking c allowed).root? = (s.root?.1, s.root?.2.asking c allowed) := by
  unfold root?
  show (if s.stopped then _ else _) = ((if s.stopped then _ else _ : Option Node × Script).1,
    (if s.stopped then _ else _ : Option Node × Script).2.asking c allowed)
  split <;> rfl

end Script

/-! ## The parse -/

/-- What a parse makes of a source under any choice about comments: the same script, a tree that differs
from its tree in the comments only, and warnings behind what was reported about it. -/
theorem exists_asked (name source : String) (o : Options) :
    ∃ (root : Option Node) (s : Script), ∀ c allowed, ∃ (tree : Option Node) (ws : List Doc.Warning),
      tree.map Node.bare = root.map Node.bare ∧ (c = .none → ws = []) ∧
      parse name source { o with comments := c, unawareCodeAllowed := allowed } =
        let sink := s.grammar.journal.sink.reports (ws.map (·.report))
        { root := if !o.keepGoing && 0 < sink.errorCount then none else tree
          features := s.grammar.journal.features
          comments := if c == .all then s.grammar.lexer.comments.toList else []
          sourceMapUrl := sourceMapUrl? s.grammar.lexer.comments.toList (Node.codeStop root)
          sink } := by
  obtain ⟨root, s, hroot⟩ : ∃ root s,
      ((Script.ofText name source o).readAll source.length).root? = (root, s) := ⟨_, _, rfl⟩
  refine ⟨root, s, fun c allowed => ?_⟩
  have hr : ((Script.ofText name source (o.asking c allowed)).readAll source.length).root? =
      (root, s.asking c allowed) := by
    rw [Script.ofText_asking, Script.readAll_asking, Script.root?_asking, hroot]
  let comments := s.grammar.lexer.comments.toList
  obtain ⟨tree, ws, -, hattach⟩ := attached_trace root comments source (o.asking c allowed)
  have hbare := bare_attached root comments source (o.asking c allowed) s.grammar.journal.sink
  rw [hattach] at hbare
  have hstop : Node.codeStop tree = Node.codeStop root := by
    rw [← Node.codeStop_bare tree, hbare, Node.codeStop_bare]
  cases c with
  | none =>
      refine ⟨root, [], rfl, fun _ => rfl, ?_⟩
      have hnone : attached root comments source (o.asking .none allowed) s.grammar.journal.sink =
          (root, s.grammar.journal.sink) := by cases root <;> rfl
      exact parse_of_root (s := s.asking .none allowed) hr hnone
  | docOnly | all =>
      refine ⟨tree, ws, hbare, nofun, ?_⟩
      rw [← hstop]
      exact parse_of_root (s := s.asking _ allowed) hr (hattach _)

/-- **Comments change nothing but comments.** Parses of one source that differ in the comments they ask for,
and in what documentation may say, give the same tree up to the comments attached to it, or both none; the
same features and source map; and the same errors in the same order. A parse that asks for no comments
reports what every other one reports first, and the others go on with warnings only. -/
theorem parse_comments (name source : String) (o : Options) (c₁ c₂ : CommentPolicy) (a₁ a₂ : Bool) :
    let left := parse name source { o with comments := c₁, unawareCodeAllowed := a₁ }
    let right := parse name source { o with comments := c₂, unawareCodeAllowed := a₂ }
    let without := parse name source { o with comments := .none, unawareCodeAllowed := a₁ }
    left.root.map Node.bare = right.root.map Node.bare ∧ left.features = right.features ∧
      left.sourceMapUrl = right.sourceMapUrl ∧
      left.sink.reported.toList.filter (·.isError) = right.sink.reported.toList.filter (·.isError) ∧
      ∃ warnings, right.sink.reported.toList = without.sink.reported.toList ++ warnings ∧
        ∀ d ∈ warnings, d.isError = false := by
  intro left right without
  obtain ⟨root, s, hall⟩ := exists_asked name source o
  let sink := s.grammar.journal.sink
  -- what documentation adds to the reports are warnings
  have hadds (ws : List Doc.Warning) : ∃ warnings,
      (sink.reports (ws.map (·.report))).reported.toList = sink.reported.toList ++ warnings ∧
        ∀ d ∈ warnings, d.isError = false := by
    obtain ⟨ds, hds, hmem⟩ := sink.exists_reports_append (ws.map (·.report))
    refine ⟨ds, hds, fun d hd => ?_⟩
    obtain ⟨r, hr, rfl⟩ := hmem d hd
    obtain ⟨w, -, rfl⟩ := List.mem_map.mp hr
    rfl
  have herrors (ws : List Doc.Warning) :
      (sink.reports (ws.map (·.report))).reported.toList.filter (·.isError) =
        sink.reported.toList.filter (·.isError) := by
    obtain ⟨warnings, h, hw⟩ := hadds ws
    have hno : warnings.filter (·.isError) = [] := List.filter_eq_nil_iff.mpr fun d hd => by simp [hw d hd]
    rw [h, List.filter_append, hno, List.append_nil]
  obtain ⟨tree₁, ws₁, hbare₁, -, hl⟩ := hall c₁ a₁
  obtain ⟨tree₂, ws₂, hbare₂, -, hr⟩ := hall c₂ a₂
  obtain ⟨tree, ws, -, hnone, hw⟩ := hall .none a₁
  cases hnone rfl
  have hcount (ws : List Doc.Warning) (h : (sink.reports (ws.map (·.report))).Counted) :
      (sink.reports (ws.map (·.report))).errorCount = (sink.reported.toList.filter (·.isError)).length := by
    rw [h.1, ← Array.countP_toList, List.countP_eq_length_filter, herrors]
  have hcount₁ := hcount ws₁ (by
    have := counted_parse name source { o with comments := c₁, unawareCodeAllowed := a₁ }
    rwa [hl] at this)
  have hcount₂ := hcount ws₂ (by
    have := counted_parse name source { o with comments := c₂, unawareCodeAllowed := a₂ }
    rwa [hr] at this)
  rw [show left = _ from hl, show right = _ from hr, show without = _ from hw]
  refine ⟨?_, rfl, rfl, (herrors ws₁).trans (herrors ws₂).symm, hadds ws₂⟩
  dsimp only
  rw [show (s.grammar.journal.sink.reports (ws₁.map (·.report))).errorCount = _ from hcount₁,
    show (s.grammar.journal.sink.reports (ws₂.map (·.report))).errorCount = _ from hcount₂]
  split
  · rfl
  · exact hbare₁.trans hbare₂.symm

end EcmaScript
