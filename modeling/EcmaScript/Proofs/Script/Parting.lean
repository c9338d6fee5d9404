import EcmaScript.Proofs.Grammar.Recovery
import EcmaScript.Proofs.Script.Findings

/-!
# Two parses of one source

One parse stops at the first failure, the other goes on behind it. Statement by statement the two are
the same, up to the one at which the first stops: `failing?` finds the script before it. There they part
in one of two ways (`Parted`). Either nothing in the statement caught the failure, and the second parse
has written what the first has written before it goes on. Or a list of statements inside caught it: then
the second parse has written the failure down at once, and passes on what the lexer had noted only at
the end of the statement.

## Contents

* `Script.Onward`: what comes later only adds to the journal.
* `Grammar.Parted`, `Script.Apart`: where the two parses part.
* `Script.step_parts`, `Script.run_parts`: one statement, and any number of them.
* `Diverged`, `parse_parts`: the two results.
-/

namespace EcmaScript

namespace Grammar

theorem State.synced_failed {s : State} (h : s.Synced) (e : Failure) : (s.failed e).Synced := by
  cases e <;> exact h

/-- What the parse that goes on has written some time after a statement, given that the parse that stops
has failed in it with `e` in the state `t`. The state `v` is the one in which the former has read the
statement. -/
inductive Parted (t : State) (e : Failure) (v : State) : Journal → Prop where
  /-- Nothing caught the failure. -/
  | uncaught (rs : List Remark) : v = t.goingOn → Parted t e v ((t.flushed.failed e).journal.notes rs)
  /-- The failure was caught and written down before the statement ended. -/
  | caught (rs : List Remark) : Growth (t.failed e).goingOn v →
      Parted t e v (v.flushed.journal.notes rs)

theorem Parted.notes {t v : State} {e : Failure} {j : Journal} (h : Parted t e v j)
    (qs : List Remark) : Parted t e v (j.notes qs) := by
  cases h with
  | uncaught rs hv =>
      rw [Journal.notes_notes]
      exact .uncaught _ hv
  | caught rs hg =>
      rw [Journal.notes_notes]
      exact .caught _ hg

end Grammar

namespace Script

/-! ## What comes later -/

/-- `t` is a later state of the script `s`. -/
structure Onward (s t : Script) : Prop where
  options : t.grammar.options = s.grammar.options
  journal : ∃ rs, t.grammar.journal = s.grammar.journal.notes rs

namespace Onward

variable {s t u : Script}

theorem refl (s : Script) : Onward s s := ⟨rfl, [], rfl⟩

theorem trans (h : Onward s t) (h' : Onward t u) : Onward s u := by
  obtain ⟨rs, hj⟩ := h.journal
  obtain ⟨qs, hj'⟩ := h'.journal
  refine ⟨h'.options.trans h.options, rs ++ qs, ?_⟩
  rw [hj', hj, Journal.notes_notes]

theorem synced (h : Onward s t) (hs : s.grammar.Synced) : t.grammar.Synced := by
  obtain ⟨rs, hj⟩ := h.journal
  unfold Grammar.State.Synced at *
  rw [hj, h.options]
  exact hs

theorem unmasked (h : Onward s t) (hs : s.grammar.journal.sink.Unmasked) :
    t.grammar.journal.sink.Unmasked := by
  obtain ⟨rs, hj⟩ := h.journal
  rw [hj]
  exact hs.reports _ rs

end Onward

theorem noting_journal {s : Script} (hs : s.grammar.Synced) :
    s.noting s.grammar.journal s.lowering.journal = s := by
  unfold noting
  rw [Grammar.State.noting_journal hs]

theorem Course.onward {f : Script → Script} {s t : Script} {rs : List Remark} (h : Course f s t rs)
    (hs : s.grammar.Synced) : Onward s (f s) := by
  obtain ⟨k, hrun⟩ := h.run s.grammar.journal s.lowering.journal
  rw [noting_journal hs] at hrun
  rw [hrun]
  refine ⟨?_, rs, rfl⟩
  show { t.grammar.options with edition := s.grammar.journal.edition } = s.grammar.options
  rw [h.options, hs]

theorem onward_run (depth limit : Nat) {s : Script} (hs : s.grammar.Synced) :
    Onward s (run depth limit s) := by
  obtain ⟨t, rs, h⟩ := run_course depth limit s
  exact h.onward hs

theorem onward_lower {α : Type} {p : Lowering α} (h : Lowering.Composed p) (s : Script) :
    Onward s (s.lower p).2 := by
  obtain ⟨rs, hrun⟩ := h.trace s.lowering
  refine ⟨rfl, rs, ?_⟩
  show (p { s.lowering with journal := s.grammar.journal }).2.journal = _
  rw [hrun]

theorem onward_root? (s : Script) : Onward s s.root?.2 := by
  unfold root?
  split
  · exact .refl s
  · exact onward_lower (Lowering.Composed.script _ _) s

theorem onward_flush (s : Script) : Onward s s.flush := by
  rw [flush_eq]
  exact ⟨rfl, s.grammar.pending, rfl⟩

/-! ## One statement in each parse -/

/-- The script in a parse that goes on behind failures. -/
def goingOn (s : Script) : Script := { s with grammar := s.grammar.goingOn }

section Step

open Grammar

variable {depth : Nat} {s : Script} {t : Grammar.State} {e : Failure}

/-- The statement is lowered behind what was read. -/
def push (s : Script) (statement : Statement) : Script :=
  match s.lower (Lowering.statement statement) with
  | (node, s) => { s with reversed := node :: s.reversed }

theorem onward_push (s : Script) (statement : Statement) : Onward s (s.push statement) := by
  have h := onward_lower (Lowering.Composed.statement statement) s
  exact ⟨h.options, h.journal⟩

theorem push_goingOn (s : Script) (statement : Statement) :
    s.goingOn.push statement = (s.push statement).goingOn := rfl

theorem step_of_ok {statement : Statement}
    (h : read depth (.statement .topLevel) s.grammar = .ok statement t) :
    step depth s = push { s with grammar := t.flushed } statement := by
  unfold step
  rw [scriptStatement_eq, h]
  rfl

/-- A failure ends the parse that stops. -/
theorem step_of_error (h : read depth (.statement .topLevel) s.grammar = .error e t)
    (hk : t.options.keepGoing = false) :
    step depth s = { s with grammar := t.flushed.failed e, stopped := true } := by
  unfold step
  rw [scriptStatement_eq, h]
  dsimp only
  rw [recover_eq, hk]
  rfl

/-- The other parse writes the failure down, and goes on. -/
theorem onward_step_of_error (h : read depth (.statement .topLevel) s.grammar = .error e t)
    (hk : t.options.keepGoing = true) (ht : t.Synced) :
    Onward { s with grammar := t.flushed.failed e } (step depth s) := by
  obtain ⟨statement, v, hv⟩ := scriptPlaceholder_ok s.grammar.current.start (t.flushed.failed e)
  have hg := Composed.growth (inferInstance : Composed (scriptPlaceholder s.grammar.current.start))
    (State.synced_failed (State.synced_flushed ht) e)
  rw [hv] at hg
  have hrun : scriptStatement (read depth) s.grammar = .ok (some statement) v := by
    rw [scriptStatement_eq, h]
    dsimp only
    rw [recover_eq, hk]
    exact hv
  have hstep : step depth s = push { s with grammar := v } statement := by
    unfold step
    rw [hrun]
    rfl
  obtain ⟨rs, _, hj⟩ := hg.journal
  have hon : Onward { s with grammar := t.flushed.failed e } { s with grammar := v } :=
    ⟨hg.options, rs, hj⟩
  rw [hstep]
  exact hon.trans (onward_push _ statement)

/-- However it read the statement, it passes on what the lexer has noted before anything else. -/
theorem onward_step_of_flushed (depth : Nat) (hk : s.grammar.options.keepGoing = true) (hs : s.grammar.Synced) :
    Onward { s with grammar := (stateOf (read depth (.statement .topLevel) s.grammar)).flushed }
      (step depth s) := by
  have hread := composed_read depth (.statement .topLevel)
  have hg := hread.growth hs
  cases hr : read depth (.statement .topLevel) s.grammar with
  | ok statement t =>
      rw [step_of_ok hr]
      exact onward_push _ statement
  | error e t =>
      rw [hr] at hg
      obtain ⟨q, position, hq, he⟩ := hread.failure_of_error hs hr
      obtain ⟨rs, _, hj⟩ := (growth_failed (s := t.flushed) hq he).journal
      have hon : Onward { s with grammar := t.flushed } { s with grammar := t.flushed.failed e } :=
        ⟨rfl, rs, hj⟩
      exact hon.trans (onward_step_of_error hr (hg.options ▸ hk) (hg.synced hs))

end Step

/-! ## The two parses side by side -/

/-- The script before the statement at which the reading stops. -/
def failing? (depth : Nat) : (limit : Nat) → Script → Option Script
  | 0, _ => none
  | limit + 1, s =>
    if s.stopped || s.grammar.current.isEnd then none
    else if (step depth s).stopped then some s
    else failing? depth limit (step depth s)

/-- A script in the parse that stops, as long as nothing has failed. -/
structure Unfailed (s : Script) : Prop where
  synced : s.grammar.Synced
  stops : s.grammar.options.keepGoing = false
  unmasked : s.grammar.journal.sink.Unmasked
  running : s.stopped = false

/-- The parses `stop` and `go` have parted at the statement behind `u`, which failed with `e` in `t`. -/
structure Apart (depth : Nat) (u : Script) (e : Failure) (t : Grammar.State) (stop go : Script) :
    Prop where
  unfailed : Unfailed u
  fails : Grammar.read depth (.statement .topLevel) u.grammar = .error e t
  stops : stop = { u with grammar := t.flushed.failed e, stopped := true }
  goes : Grammar.Parted t e
    (Grammar.stateOf (Grammar.read depth (.statement .topLevel) u.grammar.goingOn)) go.grammar.journal
  synced : go.grammar.Synced

theorem Apart.onward {depth : Nat} {u stop go v : Script} {e : Failure} {t : Grammar.State}
    (h : Apart depth u e t stop go) (hv : Onward go v) : Apart depth u e t stop v := by
  obtain ⟨rs, hj⟩ := hv.journal
  refine ⟨h.unfailed, h.fails, h.stops, ?_, hv.synced h.synced⟩
  rw [hj]
  exact h.goes.notes rs

section Run

open Grammar

variable {s : Script}

/-- **One statement**: the parses do the same, or part. -/
theorem step_parts (depth : Nat) (h : Unfailed s) :
    (Unfailed (step depth s) ∧ step depth s.goingOn = (step depth s).goingOn) ∨
      ∃ e t, Apart depth s e t (step depth s) (step depth s.goingOn) := by
  have hread := composed_read depth (.statement .topLevel)
  have hf := hread.follows h.synced h.stops
  have hg := hread.growth h.synced
  have hg' : Growth s.goingOn.grammar _ := hread.growth (show s.goingOn.grammar.Synced from h.synced)
  generalize hr : read depth (.statement .topLevel) s.grammar = r at hf hg
  generalize hr' : read depth (.statement .topLevel) s.grammar.goingOn = r' at hf
  rw [show read depth (.statement .topLevel) s.goingOn.grammar = r' from hr'] at hg'
  cases hf with
  | agrees statement t =>
      -- nothing failed: both lower the same statement behind the same state
      left
      have hstep := step_of_ok hr
      obtain ⟨rs, _, hj⟩ := hg.journal
      have hon : Onward s (step depth s) := by
        rw [hstep]
        refine Onward.trans ⟨hg.options, rs ++ t.pending, ?_⟩ (onward_push _ statement)
        show t.journal.notes t.pending = _
        rw [show t.journal = _ from hj, Journal.notes_notes]
      refine ⟨⟨hon.synced h.synced, hon.options ▸ h.stops, hon.unmasked h.unmasked, ?_⟩, ?_⟩
      · rw [hstep]
        exact h.running
      · rw [hstep, step_of_ok (show read depth _ s.goingOn.grammar = _ from hr')]
        exact push_goingOn { s with grammar := t.flushed } statement
  | fails e t =>
      -- both come back with the failure, and write the same before one of them goes on
      right
      have hgo : read depth (.statement .topLevel) s.goingOn.grammar = .error e t.goingOn := hr'
      have ht : t.goingOn.Synced := hg'.synced h.synced
      have hon := onward_step_of_error hgo rfl ht
      obtain ⟨rs, hj⟩ := hon.journal
      refine ⟨e, t, h, hr, step_of_error hr (hg.options ▸ h.stops), ?_,
        hon.synced (State.synced_failed (State.synced_flushed ht) e)⟩
      rw [hj, hr']
      exact .uncaught rs rfl
  | overtaken e t _ hgrow =>
      -- the failure was caught inside, so the parse that goes on knows nothing of it any more
      right
      have hon := onward_step_of_flushed (s := s.goingOn) depth rfl h.synced
      obtain ⟨rs, hj⟩ := hon.journal
      refine ⟨e, t, h, hr, step_of_error hr (hg.options ▸ h.stops), ?_, ?_⟩
      · rw [hj]
        rw [← hr'] at hgrow
        exact .caught rs hgrow
      · refine hon.synced (State.synced_flushed ?_)
        rw [show read depth (.statement .topLevel) s.goingOn.grammar = r' from hr']
        exact hg'.synced h.synced

theorem run_of_stopped {depth : Nat} (h : s.stopped = true) (limit : Nat) :
    run depth limit s = s := by
  cases limit with
  | zero => rfl
  | succ limit => exact if_pos (by rw [h]; rfl)

/-- **Any number of statements**: the parses stay together, or they part at the statement that
`failing?` finds. -/
theorem run_parts (depth limit : Nat) (h : Unfailed s) :
    (failing? depth limit s = none ∧ Unfailed (run depth limit s) ∧
        run depth limit s.goingOn = (run depth limit s).goingOn) ∨
      ∃ u e t, failing? depth limit s = some u ∧
        Apart depth u e t (run depth limit s) (run depth limit s.goingOn) := by
  induction limit generalizing s with
  | zero => exact Or.inl ⟨rfl, h, rfl⟩
  | succ limit ih =>
      cases hd : s.stopped || s.grammar.current.isEnd with
      | true =>
          have hrun : run depth (limit + 1) s = s := if_pos hd
          have hrun' : run depth (limit + 1) s.goingOn = s.goingOn := if_pos hd
          rw [hrun, hrun']
          exact Or.inl ⟨if_pos hd, h, rfl⟩
      | false =>
          have hd' := Bool.eq_false_iff.mp hd
          have hrun : run depth (limit + 1) s = run depth limit (step depth s) := if_neg hd'
          have hrun' : run depth (limit + 1) s.goingOn = run depth limit (step depth s.goingOn) :=
            if_neg hd'
          have hfind : failing? depth (limit + 1) s =
              if (step depth s).stopped then some s else failing? depth limit (step depth s) :=
            if_neg hd'
          rw [hrun, hrun', hfind]
          rcases step_parts depth h with ⟨hnext, hsame⟩ | ⟨e, t, hapart⟩
          · rw [hsame, hnext.running]
            exact ih hnext
          · -- the first parse is over; whatever the second does now only adds
            have hstopped : (step depth s).stopped = true := by rw [hapart.stops]
            rw [hstopped, run_of_stopped hstopped]
            exact Or.inr ⟨s, e, t, rfl, hapart.onward (onward_run depth limit hapart.synced)⟩

end Run

end Script

/-! ## The two results -/

/-- The script before the statement at which a parse that stops has failed. -/
def failing? (name source : String) (o : Options) : Option Script :=
  (Script.ofText name source { o with onError := .stopOnError }).failing?
    (4 * (source.length + 4)) (source.length + 2)

theorem Script.ofText_goingOn (name source : String) (o : Options) :
    ofText name source { o with onError := .keepGoing } =
      (ofText name source { o with onError := .stopOnError }).goingOn := by
  unfold ofText Grammar.State.ofText
  rfl

theorem Script.unfailed_ofText (name source : String) (o : Options) :
    Unfailed (ofText name source { o with onError := .stopOnError }) := by
  refine ⟨rfl, rfl, Sink.Unmasked.ofName name, rfl⟩

theorem Script.flush_goingOn (s : Script) : s.goingOn.flush = s.flush.goingOn := by
  rw [flush_eq, flush_eq]
  rfl

theorem Script.root?_goingOn (s : Script) : s.goingOn.root? = (s.root?.1, s.root?.2.goingOn) := by
  by_cases hs : s.stopped = true
  · have hr : s.root? = (none, s) := if_pos hs
    rw [hr]
    exact if_pos hs
  · have hr : s.root? = _ := if_neg hs
    rw [hr]
    exact if_neg hs

/-- Parses that stay together differ in a tree that is withheld. -/
theorem parse_of_together {name source : String} {o : Options}
    (h : Script.readAll source.length (Script.ofText name source { o with onError := .keepGoing }) =
      (Script.readAll source.length
        (Script.ofText name source { o with onError := .stopOnError })).goingOn) :
    parse name source { o with onError := .stopOnError } =
      { parse name source { o with onError := .keepGoing } with
        root := if 0 < (parse name source { o with onError := .keepGoing }).sink.errorCount then none
          else (parse name source { o with onError := .keepGoing }).root } := by
  generalize hr : (Script.readAll source.length
    (Script.ofText name source { o with onError := .stopOnError })).root? = final
  obtain ⟨root, s⟩ := final
  have hr' : (Script.readAll source.length
      (Script.ofText name source { o with onError := .keepGoing })).root? = (root, s.goingOn) := by
    rw [h, Script.root?_goingOn, hr]
  generalize ha : attached root s.grammar.lexer.comments.toList source
    { o with onError := .stopOnError } s.grammar.journal.sink = final
  obtain ⟨tree, sink⟩ := final
  have ha' : attached root s.goingOn.grammar.lexer.comments.toList source
      { o with onError := .keepGoing } s.goingOn.grammar.journal.sink = (tree, sink) := by
    rw [← ha]
    exact attached_congr rfl rfl root _ source _
  rw [parse_of_root hr ha, parse_of_root hr' ha']
  have hstop : { o with onError := .stopOnError }.keepGoing = false := rfl
  have hgo : { o with onError := .keepGoing }.keepGoing = true := rfl
  simp only [hstop, hgo, Bool.not_false, Bool.not_true, Bool.true_and, Bool.false_and, decide_eq_true_eq,
    Bool.false_eq_true, if_false]
  rfl

/-- The results of two parses that have parted at the statement behind `u`: the first has failed there
with the problem `q` in the state `t`, and `j` is what the second has written in the end. -/
structure Diverged (depth : Nat) (u : Script) (q : Problem) (position : Position) (t : Grammar.State)
    (j : Journal) (stop go : ParseResult) : Prop where
  problem : q.EndsProduction
  unmasked : t.journal.sink.Unmasked
  fails : Grammar.read depth (.statement .topLevel) u.grammar =
    .error (.unexpected q.message position) t
  parted : Grammar.Parted t (.unexpected q.message position)
    (Grammar.stateOf (Grammar.read depth (.statement .topLevel) u.grammar.goingOn)) j
  stopSink : stop.sink = (t.flushed.failed (.unexpected q.message position)).journal.sink
  stopFeatures : stop.features = (t.flushed.failed (.unexpected q.message position)).journal.features
  goSink : ∃ rs, go.sink = j.sink.reports rs
  goFeatures : go.features = j.features

/-- The results of parses that have parted. -/
theorem diverged_of_apart {name source : String} {o : Options} {u : Script} {e : Failure}
    {t : Grammar.State} {stop go : Script}
    (hstop : Script.readAll source.length
      (Script.ofText name source { o with onError := .stopOnError }) = stop.flush)
    (hgo : Script.readAll source.length
      (Script.ofText name source { o with onError := .keepGoing }) = go.flush)
    {depth : Nat} (h : Script.Apart depth u e t stop go) :
    ∃ q position j, Diverged depth u q position t j
      (parse name source { o with onError := .stopOnError })
      (parse name source { o with onError := .keepGoing }) := by
  have hread := Grammar.composed_read depth (.statement .topLevel)
  obtain ⟨q, position, hq, rfl⟩ := hread.failure_of_error h.unfailed.synced h.fails
  have hmasks : t.journal.sink.Unmasked := by
    have hg := hread.growth h.unfailed.synced
    rw [h.fails] at hg
    obtain ⟨rs, _, hj⟩ := hg.journal
    rw [show t.journal = _ from hj]
    exact h.unfailed.unmasked.reports _ rs
  have hend := (h.onward go.onward_flush).onward (Script.onward_root? _)
  generalize hr : go.flush.root? = final at hend
  obtain ⟨root, s⟩ := final
  obtain ⟨tree, ws, _, ha⟩ :=
    attached_trace root s.grammar.lexer.comments.toList source { o with onError := .keepGoing }
  have hs : stop.flush.root? = (none, stop) := by
    rw [h.stops, Script.flush_eq]
    rfl
  rw [← hstop] at hs
  rw [← hgo] at hr
  have hpstop := parse_of_root hs rfl
  have hpgo := parse_of_root hr (ha _)
  refine ⟨q, position, s.grammar.journal, hq, hmasks, h.fails, hend.goes, ?_, ?_, ?_, ?_⟩
  · rw [hpstop, h.stops]
  · rw [hpstop, h.stops]
  · exact ⟨ws.map (·.report), by rw [hpgo]⟩
  · rw [hpgo]

/-- **The two parses of a source.** If nothing fails they have the same result, but for a tree that is
withheld. If a statement fails they have `Diverged` there. -/
theorem parse_parts (name source : String) (o : Options) :
    let stop := parse name source { o with onError := .stopOnError }
    let go := parse name source { o with onError := .keepGoing }
    (failing? name source o = none ∧
        stop = { go with root := if 0 < go.sink.errorCount then none else go.root }) ∨
      ∃ u q position t j, failing? name source o = some u ∧
        Diverged (4 * (source.length + 4)) u q position t j stop go := by
  have hstart := Script.unfailed_ofText name source o
  rcases Script.run_parts (4 * (source.length + 4)) (source.length + 2) hstart with
    ⟨hnone, _, hsame⟩ | ⟨u, e, t, hsome, hapart⟩
  · refine Or.inl ⟨hnone, parse_of_together ?_⟩
    unfold Script.readAll
    rw [Script.ofText_goingOn, hsame, Script.flush_goingOn]
  · rw [← Script.ofText_goingOn] at hapart
    obtain ⟨q, position, j, hd⟩ := diverged_of_apart rfl rfl hapart
    exact Or.inr ⟨u, q, position, t, j, hsome, hd⟩

end EcmaScript
