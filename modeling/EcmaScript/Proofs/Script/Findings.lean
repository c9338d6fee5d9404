import EcmaScript.Proofs.Comment.Trace
import EcmaScript.Proofs.Lowering.Tree
import EcmaScript.Proofs.Script.Statement

/-!
# What a parse finds in a source

A script is read and lowered statement by statement. Neither half looks at the journal, so the whole way
has a `Course` that is the same under every journal and every edition: the script it leads to, and the
remarks made on the way. What a parse finds, `Findings`, is put together from it and from the warnings
about comments, and **the result of a parse is what its edition makes of its findings**
(`exists_findings`).

## Contents

* `Grammar.scriptStatement_trace`: one statement under every journal.
* `Script.Course`: a part of the way, with `step_course` for one statement and `run_course` for many.
* `Findings`, `Findings.result`, `exists_findings`: the whole parse.
-/

namespace EcmaScript

namespace Grammar

/-! ## Recovery at the top level never fails -/

theorem synchronizeFrom_ok (topLevel : Bool) (start limit : Nat) (s : State) :
    ∃ t, synchronizeFrom topLevel start limit s = .ok () t := by
  have hskip (s : State) : ∃ t, skip s = .ok () t := ⟨_, rfl⟩
  induction limit generalizing s with
  | zero => exact ⟨s, rfl⟩
  | succ limit ih =>
      unfold synchronizeFrom
      rw [bind_ok (show current s = .ok s.current s from rfl)]
      split
      · exact ⟨s, rfl⟩
      · split
        · exact hskip s
        · split
          · split
            · exact hskip s
            · exact ⟨s, rfl⟩
          · obtain ⟨t, ht⟩ := hskip s
            rw [bind_ok ht, bind_ok (show current t = .ok t.current t from rfl)]
            split
            · exact ⟨t, rfl⟩
            · exact ih t

theorem scriptPlaceholder_ok (start : Position) (s : State) :
    ∃ statement t, scriptPlaceholder start s = .ok (some statement) t := by
  obtain ⟨t, ht⟩ := synchronizeFrom_ok true s.current.span.offset (s.lexer.rest.length + 2) s
  refine ⟨.error (Span.between start t.lastStop), t, ?_⟩
  unfold scriptPlaceholder
  rw [bind_ok (show synchronize true s = .ok () t from ht)]
  rfl

/-! ## One statement under every journal -/

/-- The state with the notes of the lexer dropped. -/
def State.drained (s : State) : State :=
  { s with lexer := { s.lexer with diagnostics := #[], features := #[] } }

theorem State.flushed_noting (s : State) (j : Journal) :
    (s.noting j).flushed = s.drained.noting (j.notes s.pending) := rfl

/-- **A statement of the script does the same under every journal.** If it ends the reading, a failure
was remarked. -/
theorem scriptStatement_trace (depth : Nat) (s : State) :
    ∃ (a : Option Statement) (t : State) (rs : List Remark),
      (∀ j, scriptStatement (read depth) (s.noting j) = .ok a (t.noting (j.notes rs))) ∧
      t.options = s.options ∧
      (a = none → s.options.keepGoing = false ∧
        ∃ (position : Position) (p : Problem),
          p.EndsProduction ∧ Remark.problem position p ∈ rs) ∧
      ∀ r ∈ rs, r.Grammatical ∨ r.Flushed := by
  obtain ⟨o, ho, hrun⟩ := (composed_read depth (.statement .topLevel)).outcome s
  have hread : ∀ r ∈ o.remarks ++ o.state.pending, r.Grammatical ∨ r.Flushed :=
    List.forall_mem_append.mpr ⟨fun r hr => .inl (ho.remarks r hr),
      fun r hr => .inr (o.state.flushed_of_pending r hr)⟩
  cases hres : o.result with
  | ok statement =>
      refine ⟨some statement, o.state.drained, o.remarks ++ o.state.pending, fun j => ?_, ho.options, nofun, hread⟩
      rw [scriptStatement_eq, hrun, Outcome.under_ok hres]
      dsimp only
      rw [State.flushed_noting, Journal.notes_notes]
  | error e =>
      -- what the production remarked, what the lexer had noted, and the failure itself
      let rs := o.remarks ++ o.state.pending ++ [Remark.problem e.2 e.1]
      have hrs : ∀ r ∈ rs, r.Grammatical ∨ r.Flushed := List.forall_mem_append.mpr
        ⟨hread, List.forall_mem_singleton.mpr (.inl (.problem e.2 e.1 (ho.problem hres)))⟩
      have hrec (j : Journal) : scriptStatement (read depth) (s.noting j) =
          (if s.options.keepGoing then scriptPlaceholder s.current.start else return none)
            (o.state.drained.noting (j.notes rs)) := by
        rw [scriptStatement_eq, hrun, Outcome.under_error hres]
        dsimp only
        rw [recover_eq, State.flushed_noting, ← Journal.notes_notes, ← Journal.notes_notes]
        show (if o.state.options.keepGoing then _ else _ : Production _) _ = _
        rw [ho.options]
        rfl
      cases hk : s.options.keepGoing with
      | false =>
          refine ⟨none, o.state.drained, rs, fun j => ?_, ho.options, fun _ => ⟨rfl, e.2, e.1, ?_, ?_⟩, hrs⟩
          · rw [hrec, hk]
            rfl
          · exact ho.problem hres
          · exact List.mem_append_right _ (List.mem_singleton_self _)
      | true =>
          obtain ⟨o', ho', hrun'⟩ :=
            (inferInstance : Composed (scriptPlaceholder s.current.start)).outcome o.state.drained
          obtain ⟨statement, t, ht⟩ :=
            scriptPlaceholder_ok s.current.start (o.state.drained.noting default)
          rw [hrun'] at ht
          -- recovery ends without a failure, so its outcome is a statement
          cases hres' : o'.result with
          | error x =>
              rw [Outcome.under_error hres'] at ht
              cases ht
          | ok a =>
              rw [Outcome.under_ok hres'] at ht
              cases ht
              refine ⟨some statement, o'.state, rs ++ o'.remarks, fun j => ?_,
                ho'.options.trans ho.options, nofun,
                List.forall_mem_append.mpr ⟨hrs, fun r hr => .inl (ho'.remarks r hr)⟩⟩
              have hp := (hrun' (j.notes rs)).trans (Outcome.under_ok hres' _)
              rw [Journal.notes_notes] at hp
              rw [hrec, hk]
              exact hp

end Grammar

/-! ## The way through a script -/

namespace Script

/-- The script with other journals, one for what is read and one that lowering will overwrite. -/
def noting (s : Script) (j k : Journal) : Script :=
  { s with grammar := s.grammar.noting j, lowering := { s.lowering with journal := k } }

/-- The edition changes nothing at the start but the journal. -/
theorem ofText_noting (name source : String) (o : Options) (e : Edition) :
    ofText name source { o with edition := e } =
      (ofText name source o).noting { edition := e, sink := .ofName name }
        { edition := e, sink := .ofName name } := by
  unfold ofText Grammar.State.ofText
  rfl

/-- `f` leads from `s` to `t` with the remarks `rs`, under every journal. -/
structure Course (f : Script → Script) (s t : Script) (rs : List Remark) : Prop where
  run : ∀ j k, ∃ k', f (s.noting j k) = t.noting (j.notes rs) k'
  options : t.grammar.options = s.grammar.options
  /-- Only a failure stops the reading, and only where the options say so. -/
  stopped : t.stopped = true → s.stopped = true ∨ s.grammar.options.keepGoing = false ∧
    ∃ (position : Position) (p : Problem), p.EndsProduction ∧ Remark.problem position p ∈ rs

namespace Course

variable {f g : Script → Script} {s t u : Script} {rs qs : List Remark}

protected theorem id (s : Script) : Course id s s [] := ⟨fun _ k => ⟨k, rfl⟩, rfl, Or.inl⟩

theorem comp (h : Course f s t rs) (h' : Course g t u qs) : Course (g ∘ f) s u (rs ++ qs) := by
  refine ⟨fun j k => ?_, h'.options.trans h.options, fun hu => ?_⟩
  · obtain ⟨k₁, h₁⟩ := h.run j k
    obtain ⟨k₂, h₂⟩ := h'.run (j.notes rs) k₁
    refine ⟨k₂, ?_⟩
    rw [Function.comp_apply, h₁, h₂, Journal.notes_notes]
  · rcases h'.stopped hu with ht | ⟨hk, position, p, hp, hm⟩
    · rcases h.stopped ht with hs | ⟨hk, position, p, hp, hm⟩
      · exact Or.inl hs
      · exact Or.inr ⟨hk, position, p, hp, List.mem_append_left _ hm⟩
    · exact Or.inr ⟨h.options ▸ hk, position, p, hp, List.mem_append_right _ hm⟩

/-- A course is about what a function does under every journal of the start. -/
theorem congr (h : Course f s t rs) (hf : ∀ j k, g (s.noting j k) = f (s.noting j k)) :
    Course g s t rs :=
  ⟨fun j k => hf j k ▸ h.run j k, h.options, h.stopped⟩

end Course

/-- Lowering writes the same remarks into whatever the grammar has written. -/
theorem lower_trace {α : Type} {p : Lowering α} (h : Lowering.Composed p) (s : Script) :
    ∃ a l rs, ∀ j k, (s.noting j k).lower p =
      (a, { s with lowering := l }.noting (j.notes rs) (j.notes rs)) := by
  obtain ⟨rs, hrun⟩ := h.trace s.lowering
  refine ⟨(p s.lowering).1, (p s.lowering).2, rs, fun j k => ?_⟩
  unfold lower
  rw [show p { (s.noting j k).lowering with journal := (s.noting j k).grammar.journal } = _ from hrun j]
  rfl

/-- **One statement**, read and lowered. -/
theorem step_course (depth : Nat) (s : Script) : ∃ t rs, Course (step depth) s t rs := by
  obtain ⟨a, t, rs, hrun, ho, hstop, -⟩ := Grammar.scriptStatement_trace depth s.grammar
  cases a with
  | none =>
      obtain ⟨hk, hfail⟩ := hstop rfl
      refine ⟨{ s with grammar := t, stopped := true }, rs, fun j k => ⟨k, ?_⟩, ho,
        fun _ => Or.inr ⟨hk, hfail⟩⟩
      unfold step
      rw [show Grammar.scriptStatement _ (s.noting j k).grammar = _ from hrun j]
      rfl
  | some statement =>
      obtain ⟨node, l, qs, hlower⟩ :=
        lower_trace (Lowering.Composed.statement statement) { s with grammar := t }
      refine ⟨{ s with grammar := t, lowering := l, reversed := node :: s.reversed }, rs ++ qs,
        fun j k => ⟨j.notes (rs ++ qs), ?_⟩, ho, Or.inl⟩
      unfold step
      rw [show Grammar.scriptStatement _ (s.noting j k).grammar = _ from hrun j]
      dsimp only
      rw [show lower { s.noting j k with grammar := t.noting (j.notes rs) } _ = _ from
        hlower (j.notes rs) k, Journal.notes_notes]
      rfl

/-- **Any number of statements**, by induction on that number. -/
theorem run_course (depth limit : Nat) (s : Script) : ∃ t rs, Course (run depth limit) s t rs := by
  induction limit generalizing s with
  | zero => exact ⟨s, [], Course.id s⟩
  | succ limit ih =>
      -- whether to read on is asked of the script, which is the same under every journal
      cases hd : s.stopped || s.grammar.current.isEnd with
      | true =>
          refine ⟨s, [], (Course.id s).congr fun j k => ?_⟩
          exact if_pos hd
      | false =>
          obtain ⟨t, rs, hstep⟩ := step_course depth s
          obtain ⟨u, qs, hrun⟩ := ih t
          refine ⟨u, rs ++ qs, (hstep.comp hrun).congr fun j k => ?_⟩
          exact if_neg (Bool.eq_false_iff.mp hd)

theorem flush_eq (s : Script) : s.flush = { s with grammar := s.grammar.flushed } := by
  unfold flush
  rw [Grammar.flush_eq]

theorem flush_course (s : Script) :
    Course flush s { s with grammar := s.grammar.drained } s.grammar.pending := by
  refine ⟨fun j k => ⟨k, ?_⟩, rfl, Or.inl⟩
  rw [flush_eq]
  rfl

theorem readAll_course (length : Nat) (s : Script) : ∃ t rs, Course (readAll length) s t rs := by
  obtain ⟨t, rs, hrun⟩ := run_course (4 * (length + 4)) (length + 2) s
  exact ⟨_, _, hrun.comp t.flush_course⟩

/-- The tree is the same under every journal too. -/
theorem root?_trace (s : Script) :
    ∃ root l rs, (root = none → s.stopped = true) ∧
      ∀ j k, ∃ k', (s.noting j k).root? =
        (root, { s with lowering := l }.noting (j.notes rs) k') := by
  by_cases hs : s.stopped = true
  · refine ⟨none, s.lowering, [], fun _ => hs, fun j k => ⟨k, ?_⟩⟩
    exact if_pos hs
  · obtain ⟨root, l, rs, hlower⟩ := lower_trace (Lowering.Composed.script s.reversed.reverse
      (Span.between Position.start s.grammar.current.span.stop)) s
    refine ⟨some root, l, rs, nofun, fun j k => ⟨j.notes rs, ?_⟩⟩
    have hr : (s.noting j k).root? = _ := if_neg hs
    rw [hr]
    dsimp only
    rw [show (s.noting j k).lower (Lowering.script (s.noting j k).reversed.reverse
      (Span.between Position.start (s.noting j k).grammar.current.span.stop)) = _ from hlower j k]

end Script

/-! ## The whole parse -/

/-- The tree with its comments, and the sink with the warnings about them. -/
def attached (root : Option Node) (comments : List Comment) (source : String) (o : Options)
    (sink : Sink) : Option Node × Sink :=
  match root with
  | some n =>
    match n.attachComments comments source.toList o sink with
    | (n, sink) => (some n, sink)
  | none => (none, sink)

/-- Of the options, attaching looks at those about comments only. -/
theorem attached_congr {o o' : Options} (hc : o'.comments = o.comments) (hd : o'.doc = o.doc)
    (root : Option Node) (comments : List Comment) (source : String) (sink : Sink) :
    attached root comments source o' sink = attached root comments source o sink := by
  unfold attached Node.attachComments
  rw [hc, hd]

/-- Attaching neither makes nor removes a tree, and warns the same whatever was reported before. -/
theorem attached_trace (root : Option Node) (comments : List Comment) (source : String) (o : Options) :
    ∃ (tree : Option Node) (ws : List Doc.Warning), tree.isSome = root.isSome ∧
      ∀ sink, attached root comments source o sink = (tree, sink.reports (ws.map (·.report))) := by
  cases root with
  | none => exact ⟨none, [], rfl, fun _ => rfl⟩
  | some n =>
      obtain ⟨m, ws, hattach⟩ := n.attachComments_trace comments source.toList o
      refine ⟨some m, ws, rfl, fun sink => ?_⟩
      unfold attached
      dsimp only
      rw [hattach, Doc.report_eq]

/-- What a parse makes of a script that has been read. -/
theorem parse_of_root {name source : String} {o : Options} {root tree : Option Node} {s : Script}
    {sink : Sink} (hr : ((Script.ofText name source o).readAll source.length).root? = (root, s))
    (ha : attached root s.grammar.lexer.comments.toList source o s.grammar.journal.sink =
      (tree, sink)) :
    parse name source o =
      { root := if !o.keepGoing && 0 < sink.errorCount then none else tree
        features := s.grammar.journal.features
        comments := if o.comments == .all then s.grammar.lexer.comments.toList else []
        sourceMapUrl := sourceMapUrl? s.grammar.lexer.comments.toList (Node.codeStop tree)
        sink } := by
  unfold parse
  rw [hr]
  cases root with
  | none =>
      cases ha
      rfl
  | some n =>
      unfold attached at ha
      dsimp only at ha ⊢
      cases ha
      rfl

/-- What a parse finds, before an edition is consulted. -/
structure Findings where
  /-- The tree with its comments, unless a failure stopped the reading. -/
  root : Option Node
  comments : List Comment
  /-- What lexer, grammar and static rules remark, in order. -/
  remarks : List Remark
  /-- The warnings about documentation comments. -/
  warnings : List Doc.Warning

namespace Findings

/-- The sink after everything has been reported. -/
def sink (f : Findings) (name : String) (e : Edition) : Sink :=
  ((Sink.ofName name).reports (Remark.reports e f.remarks)).reports (f.warnings.map (·.report))

theorem counted_sink (f : Findings) (name : String) (e : Edition) : (f.sink name e).Counted :=
  ((Sink.counted_ofName name).reports _).reports _

/-- What the options make of the findings. -/
def result (f : Findings) (name : String) (o : Options) : ParseResult :=
  { root := if !o.keepGoing && 0 < (f.sink name o.edition).errorCount then none else f.root
    features := (Remark.features f.remarks).foldl .insert .empty
    comments := if o.comments == .all then f.comments else []
    sourceMapUrl := sourceMapUrl? f.comments (Node.codeStop f.root)
    sink := f.sink name o.edition }

/-- Without a tree there is a failure that stopped the reading. -/
def Lawful (f : Findings) (o : Options) : Prop :=
  f.root = none → o.keepGoing = false ∧
    ∃ (position : Position) (p : Problem), p.EndsProduction ∧ Remark.problem position p ∈ f.remarks

end Findings

/-- **The result of a parse is what its edition makes of its findings**, and the findings do not depend
on the edition. -/
theorem exists_findings (name source : String) (o : Options) :
    ∃ f : Findings, f.Lawful o ∧
      ∀ e, parse name source { o with edition := e } = f.result name { o with edition := e } := by
  obtain ⟨t, rs, hread⟩ := Script.readAll_course source.length (Script.ofText name source o)
  obtain ⟨root, l, qs, hnone, hroot⟩ := t.root?_trace
  obtain ⟨tree, ws, hsome, hattach⟩ := attached_trace root t.grammar.lexer.comments.toList source o
  refine ⟨⟨tree, t.grammar.lexer.comments.toList, rs ++ qs, ws⟩, fun htree => ?_, fun e => ?_⟩
  · have hr : root = none := by
      rw [show tree = none from htree] at hsome
      exact Option.isNone_iff_eq_none.mp (Option.isSome_eq_false_iff.mp hsome.symm)
    rcases hread.stopped (hnone hr) with hs | ⟨hk, position, p, hp, hm⟩
    · cases hs
    · exact ⟨hk, position, p, hp, List.mem_append_left _ hm⟩
  · let j : Journal := { edition := e, sink := .ofName name }
    obtain ⟨k₁, h₁⟩ := hread.run j j
    obtain ⟨k₂, h₂⟩ := hroot (j.notes rs) k₁
    rw [Journal.notes_notes, ← h₁, ← Script.ofText_noting] at h₂
    have ha := hattach (j.notes (rs ++ qs)).sink
    rw [← attached_congr (show { o with edition := e }.comments = o.comments from rfl) rfl] at ha
    exact parse_of_root h₂ ha

/-- What has been noted when the root is made is what a parse finds. -/
theorem exists_findings_of_notes {name source : String} {o : Options} {rs : List Remark}
    (h : ((Script.ofText name source o).readAll source.length).root?.2.grammar.journal =
      (Script.ofText name source o).grammar.journal.notes rs) :
    ∃ f : Findings, parse name source o = f.result name o ∧ f.remarks = rs := by
  generalize hroot : ((Script.ofText name source o).readAll source.length).root? = made at h
  obtain ⟨root, s⟩ := made
  obtain ⟨tree, ws, -, hattach⟩ := attached_trace root s.grammar.lexer.comments.toList source o
  refine ⟨⟨tree, s.grammar.lexer.comments.toList, rs, ws⟩, ?_, rfl⟩
  rw [parse_of_root hroot (hattach _), show s.grammar.journal = _ from h]
  rfl

theorem counted_parse (name source : String) (o : Options) : (parse name source o).sink.Counted := by
  obtain ⟨f, _, hparse⟩ := exists_findings name source o
  have h : parse name source o = f.result name o := hparse o.edition
  rw [h]
  exact f.counted_sink name o.edition

end EcmaScript
