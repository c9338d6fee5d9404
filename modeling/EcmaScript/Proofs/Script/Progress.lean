import EcmaScript.Proofs.Grammar.Loops
import EcmaScript.Proofs.Script.Parting

/-!
# A parse comes to an end

Each statement of a script, and each statement of a list, moves the cursor on, also when it fails and is
passed over: `lt_scriptStatement` and the step of a list in `Grammar.Loops`. So the script is read to its
end after at most as many statements as there are tokens, and neither the number of statements nor the
depth of nonterminals that a parse is given is what ends it.

## Contents

* `Grammar.reads_scriptStatement`, `lt_scriptStatement`: one statement of a script.
* `Script.reads_step`, `lt_step`, `step_eq_step`: the same of a step, which lowers the statement too.
* `Script.ends_run`, `run_ofText`: all steps.
* `parse_progresses`: the top-level statement of all this.
-/

namespace EcmaScript

namespace Grammar

variable {text : List Char} {s t : State}

/-! ## One statement -/

/-- The tokens of a statement of the script, those that recovery has read included. -/
theorem reads_scriptStatement (depth : Nat) (s : State) :
    ∃ tokens, Reads s tokens (stateOf (scriptStatement (read depth) s)) := by
  obtain ⟨xs, hx⟩ := (composed_read depth (.statement .topLevel)).reads s
  rw [scriptStatement_eq]
  cases h : read depth (.statement .topLevel) s with
  | ok statement t =>
      rw [h] at hx
      exact ⟨xs ++ [], hx.trans (.of_idle t.idle_flushed)⟩
  | error e t =>
      rw [h] at hx
      dsimp only
      rw [recover_eq]
      have hc : Composed (if t.options.keepGoing then scriptPlaceholder s.current.start
        else return none) := inferInstance
      obtain ⟨ys, hy⟩ := hc.reads (t.flushed.failed e)
      exact ⟨xs ++ ys, hx.trans (.idle t.idle_flushed (.idle (State.idle_journal _ _) hy))⟩

/-- **A statement of the script moves the cursor on**, also if it fails. -/
theorem lt_scriptStatement (depth : Nat) (hs : s.Standing text) (he : s.current.isEnd = false)
    {statement : Statement} (h : scriptStatement (read depth) s = .ok (some statement) t) :
    s.current.span.offset < t.current.span.offset := by
  have hle := (composed_read depth (.statement .topLevel)).le hs
  rw [scriptStatement_eq] at h
  cases hr : read depth (.statement .topLevel) s with
  | ok a u =>
      rw [hr] at h
      cases h
      exact Nat.lt_of_lt_of_eq ((consumes_read depth).lt (.statement .topLevel) hs hr) rfl
  | error e u =>
      rw [hr] at h hle
      dsimp only at h
      rw [recover_eq] at h
      split at h
      · obtain ⟨_, v, hv, ht⟩ := exists_of_bind_ok h
        cases ht
        have hu := (hle.1.idle u.idle_flushed).idle (State.idle_journal _ (u.flushed.journal.failure e))
        have hlt := lt_synchronize true hs he hu hle.2
        rwa [hv] at hlt
      · cases h

/-- A parse that goes on has a statement in any case. -/
theorem scriptStatement_ok (depth : Nat) (hk : s.options.keepGoing = true) :
    ∃ statement t, scriptStatement (read depth) s = .ok (some statement) t := by
  rw [scriptStatement_eq]
  cases hr : read depth (.statement .topLevel) s with
  | ok a u => exact ⟨a, u.flushed, rfl⟩
  | error e u =>
      obtain ⟨_, hreads⟩ := (composed_read depth (.statement .topLevel)).reads s
      rw [hr] at hreads
      have hku : u.options.keepGoing = true := hreads.options ▸ hk
      dsimp only
      rw [recover_eq, hku]
      exact scriptPlaceholder_ok _ _

/-- A list that goes on behind failures does not fail itself. -/
theorem listStatement_ok (depth : Nat) (hk : s.options.keepGoing = true) :
    ∃ found t, listStatement (read depth) s = .ok found t := by
  rw [Composed.listStatement_eq, bind_ok (show current s = .ok s.current s from rfl)]
  split
  · exact ⟨none, s, rfl⟩
  · have hc : Composed (some <$> read depth (.statement .list)) :=
      have := composed_read depth (.statement .list)
      inferInstance
    obtain ⟨_, hreads⟩ := hc.reads s
    unfold reporting
    cases hr : (some <$> read depth (.statement .list)) s with
    | ok found u => exact ⟨found, u, rfl⟩
    | error e u =>
        rw [hr] at hreads
        have hku : u.options.keepGoing = true := hreads.options ▸ hk
        obtain ⟨v, hv⟩ := synchronizeFrom_ok false u.current.span.offset (u.lexer.rest.length + 2)
          { u with journal := u.journal.failure e }
        refine ⟨some (.error (Span.between s.current.start v.lastStop)), v, ?_⟩
        dsimp only
        rw [if_pos hku]
        unfold Composed.placeholder
        rw [bind_ok (show synchronize false _ = .ok () v from hv)]
        rfl

theorem scriptStatement_eq_of_depth {depth depth' : Nat} (hs : s.Standing text)
    (hd : 2 * text.length + 2 ≤ depth) (hd' : 2 * text.length + 2 ≤ depth') :
    scriptStatement (read depth) s = scriptStatement (read depth') s := by
  have hn : Nonterminal.depth (.statement .topLevel) (text.length - s.current.span.offset) ≤
      2 * text.length + 2 := by
    have := Nonterminal.rank_le (.statement .topLevel)
    unfold Nonterminal.depth
    omega
  rw [scriptStatement_eq, scriptStatement_eq,
    read_eq_read _ hs (Nat.le_trans hn hd) (Nat.le_trans hn hd')]

end Grammar

namespace Script

open Grammar

variable {text : List Char} {s : Script} {depth : Nat}

/-! ## One step -/

/-- Lowering leaves the cursor alone. -/
theorem idle_lower {α : Type} (p : Lowering α) (s : Script) : s.grammar.Idle (s.lower p).2.grammar :=
  s.grammar.idle_journal _

theorem reads_step (depth : Nat) (s : Script) :
    ∃ tokens, Reads s.grammar tokens (s.step depth).grammar := by
  obtain ⟨tokens, hreads⟩ := reads_scriptStatement depth s.grammar
  unfold step
  split
  next statement t ht =>
    rw [ht] at hreads
    have hidle := idle_lower (Lowering.statement statement) { s with grammar := t }
    exact ⟨tokens ++ [], hreads.trans (.of_idle hidle)⟩
  next t ht =>
    rw [ht] at hreads
    exact ⟨tokens, hreads⟩
  next e t ht =>
    rw [ht] at hreads
    exact ⟨tokens, hreads⟩

/-- A step moves the cursor on or stops the reading. -/
theorem lt_step (depth : Nat) (hs : s.grammar.Standing text) (he : s.grammar.current.isEnd = false) :
    s.grammar.current.span.offset < (s.step depth).grammar.current.span.offset ∨
      (s.step depth).stopped = true := by
  unfold step
  split
  next statement t ht => exact .inl (Nat.lt_of_lt_of_eq (lt_scriptStatement depth hs he ht) rfl)
  next => exact .inr rfl
  next => exact .inr rfl

/-- A parse that goes on moves the cursor on. -/
theorem lt_step_of_keepGoing (hs : s.grammar.Standing text) (he : s.grammar.current.isEnd = false)
    (hk : s.grammar.options.keepGoing = true) :
    s.grammar.current.span.offset < (s.step depth).grammar.current.span.offset := by
  obtain ⟨statement, t, ht⟩ := scriptStatement_ok depth hk
  unfold step
  rw [ht]
  exact Nat.lt_of_lt_of_eq (lt_scriptStatement depth hs he ht) rfl

theorem stopped_step (hk : s.grammar.options.keepGoing = true) :
    (s.step depth).stopped = s.stopped := by
  obtain ⟨statement, t, ht⟩ := scriptStatement_ok depth hk
  unfold step
  rw [ht]
  rfl

theorem step_eq_step {depth' : Nat} (hs : s.grammar.Standing text) (hd : 2 * text.length + 2 ≤ depth)
    (hd' : 2 * text.length + 2 ≤ depth') : s.step depth = s.step depth' := by
  unfold step
  rw [scriptStatement_eq_of_depth hs hd hd']

/-! ## All steps -/

theorem reads_run (depth limit : Nat) (s : Script) :
    ∃ tokens, Reads s.grammar tokens (s.run depth limit).grammar := by
  induction limit generalizing s with
  | zero => exact ⟨[], .stay _⟩
  | succ limit ih =>
      unfold run
      split
      · exact ⟨[], .stay _⟩
      · obtain ⟨xs, hx⟩ := reads_step depth s
        obtain ⟨ys, hy⟩ := ih (s.step depth)
        exact ⟨xs ++ ys, hx.trans hy⟩

theorem run_eq_run {depth' : Nat} (hs : s.grammar.Standing text) (hd : 2 * text.length + 2 ≤ depth)
    (hd' : 2 * text.length + 2 ≤ depth') (limit : Nat) : s.run depth limit = s.run depth' limit := by
  induction limit generalizing s with
  | zero => rfl
  | succ limit ih =>
      obtain ⟨_, hreads⟩ := reads_step depth s
      unfold run
      rw [← step_eq_step hs hd hd', ih (hreads.forward hs).standing]

/-- **The statements come to an end**: there are at most as many as tokens, and one that stops the
reading. -/
theorem ends_run (depth : Nat) (hs : s.grammar.Standing text) :
    ∃ tokens t, Reads s.grammar tokens t.grammar ∧
      (t.stopped = true ∨ t.grammar.current.isEnd = true) ∧
      ∀ limit, tokens.length < limit → s.run depth limit = t := by
  induction hn : s.grammar.tokensLeft using Nat.strongRecOn generalizing s with
  | ind n ih =>
      cases hd : s.stopped || s.grammar.current.isEnd with
      | true =>
          refine ⟨[], s, .stay _, Bool.or_eq_true_iff.mp hd, fun limit hlt => ?_⟩
          obtain ⟨limit, rfl⟩ := Nat.exists_eq_succ_of_ne_zero (Nat.ne_zero_of_lt hlt)
          exact if_pos hd
      | false =>
          have he := (Bool.or_eq_false_iff.mp hd).2
          obtain ⟨xs, hx⟩ := reads_step depth s
          have hrun (limit : Nat) : s.run depth (limit + 1) = (s.step depth).run depth limit :=
            if_neg (Bool.eq_false_iff.mp hd)
          obtain hlt | hstop := lt_step depth hs he
          · have hpos := List.length_pos_iff.mpr (hx.ne_nil hs hlt)
            have hless := (hx.forward hs).tokensLeft
            obtain ⟨ys, t, hy, ht, hall⟩ := ih _ (by omega) (hx.forward hs).standing rfl
            refine ⟨xs ++ ys, t, hx.trans hy, ht, fun limit hlt => ?_⟩
            rw [List.length_append] at hlt
            obtain ⟨limit, rfl⟩ := Nat.exists_eq_succ_of_ne_zero (Nat.ne_zero_of_lt hlt)
            exact (hrun limit).trans (hall limit (by omega))
          · refine ⟨xs, s.step depth, hx, .inl hstop, fun limit hlt => ?_⟩
            obtain ⟨limit, rfl⟩ := Nat.exists_eq_succ_of_ne_zero (Nat.ne_zero_of_lt hlt)
            exact (hrun limit).trans (run_of_stopped hstop limit)

theorem stopped_run (depth limit : Nat) (hk : s.grammar.options.keepGoing = true) :
    (s.run depth limit).stopped = s.stopped := by
  induction limit generalizing s with
  | zero => rfl
  | succ limit ih =>
      obtain ⟨_, hreads⟩ := reads_step depth s
      unfold run
      split
      · rfl
      · exact (ih (hreads.options ▸ hk)).trans (stopped_step hk)

theorem standing_ofText (name source : String) (options : Options) :
    (ofText name source options).grammar.Standing source.toList :=
  State.standing_ofText source options _

/-- A script comes to its end or to the failure that stops it, whatever number and depth from these on it
is given. -/
theorem run_ofText (name source : String) (options : Options) :
    ∃ t : Script, (t.grammar.current.isEnd = true ∨ options.keepGoing = false ∧ t.stopped = true) ∧
      ∀ depth limit, 2 * source.length + 2 ≤ depth → source.length + 2 ≤ limit →
        (ofText name source options).run depth limit = t := by
  have hstart := standing_ofText name source options
  obtain ⟨tokens, t, hreads, hlast, hends⟩ := ends_run (2 * source.length + 2) hstart
  have hfew : tokens.length < source.length + 2 := by
    have hleft := (hreads.forward hstart).tokensLeft
    have hle := (ofText name source options).grammar.tokensLeft_le
    have hrest := hstart.rest_length
    rw [String.length_toList] at hrest
    omega
  refine ⟨t, ?_, fun depth limit hd hl => ?_⟩
  · obtain hstopped | hend := hlast
    · cases hk : options.keepGoing with
      | false => exact .inr ⟨rfl, hstopped⟩
      | true =>
          have hrun := stopped_run (s := ofText name source options) (2 * source.length + 2)
            (source.length + 2) hk
          rw [hends _ hfew, hstopped] at hrun
          cases hrun
    · exact .inl hend
  · rw [← hends limit (by omega)]
    have hlength := source.length_toList
    exact run_eq_run hstart (by omega) (by omega) limit

end Script

open Grammar in
/-- **Recovery always comes to an end.** In every state that a parse comes to (`Standing` holds at the
start, behind every statement, and behind everything that a statement is put together from):

* a statement of the script or of a list moves the cursor on, whether it was read or passed over, and a
  parse that goes on behind failures has such a statement until the cursor is at the end of the text;
* every loop of the grammar ends by itself, after at most one round for each token that it reads and one
  more, and within the limit that it is given;
* the script is read to its end, or to the failure that stops it, after at most as many statements as
  there are characters and an end, and any greater number and depth lead to the same. -/
theorem parse_progresses (name source : String) (options : Options) :
    (∀ depth limit,
      ((Script.ofText name source options).run depth limit).grammar.Standing source.toList) ∧
    (∀ {α : Type} (p : Production α), Composed p →
      ∀ s, s.Standing source.toList → (stateOf (p s)).Standing source.toList) ∧
    (∀ depth (s : Script), s.grammar.Standing source.toList → s.grammar.current.isEnd = false →
      s.grammar.options.keepGoing = true →
      s.grammar.current.span.offset < (s.step depth).grammar.current.span.offset ∧
        (s.step depth).stopped = s.stopped) ∧
    (∀ depth (s : State), s.Standing source.toList → s.options.keepGoing = true →
      (∃ found t, listStatement (Grammar.read depth) s = .ok found t) ∧
        ∀ statement t, listStatement (Grammar.read depth) s = .ok (some statement) t →
          s.current.span.offset < t.current.span.offset) ∧
    (∀ (depth : Nat) {α : Type} (loop : Nat → Production α), Loop (Grammar.read depth) loop →
      ∀ s, s.Standing source.toList → Grammar.Settles loop s ∧
        ∀ limit, s.lexer.rest.length + 2 ≤ limit →
          loop limit s = loop (s.lexer.rest.length + 2) s) ∧
    ∀ depth limit, 4 * (source.length + 4) ≤ depth → source.length + 2 ≤ limit →
      let s := (Script.ofText name source options).run depth limit
      s.flush = (Script.ofText name source options).readAll source.length ∧
        (s.grammar.current.isEnd = true ∨ options.keepGoing = false ∧ s.stopped = true) := by
  have hstart := Script.standing_ofText name source options
  refine ⟨fun depth limit => ?_, fun p hp s hs => (hp.le hs).1, fun depth s hs he hk => ?_,
    fun depth s hs hk => ⟨listStatement_ok depth hk, fun statement t ht => ?_⟩,
    fun depth α loop h s hs => ?_, fun depth limit hd hl => ?_⟩
  · obtain ⟨_, hreads⟩ := Script.reads_run depth limit (Script.ofText name source options)
    exact (hreads.forward hstart).standing
  · exact ⟨Script.lt_step_of_keepGoing hs he hk, Script.stopped_step hk⟩
  · exact Offers.lt (consumes_read depth) hs ht
  · have hends := h.settles (consumes_read depth) hs
    exact ⟨hends, fun limit hl => hends.eq_of_le hs hl⟩
  · obtain ⟨t, hlast, hends⟩ := Script.run_ofText name source options
    dsimp only
    unfold Script.readAll
    rw [hends depth limit (by omega) hl, hends _ _ (by omega) (Nat.le_refl _)]
    exact ⟨rfl, hlast⟩

/-- A brace that closes nothing is passed over. -/
theorem parse_progresses_brace :
    let s := Script.ofText "a.js" "\x7d" { onError := .keepGoing }
    s.grammar.current.isEnd = false ∧ s.grammar.options.keepGoing = true ∧
      s.grammar.current.span.offset < (s.step 4).grammar.current.span.offset :=
  have he : (Script.ofText "a.js" "\x7d" { onError := .keepGoing }).grammar.current.isEnd = false := by
    decide +kernel
  have hall := parse_progresses "a.js" "\x7d" { onError := .keepGoing }
  ⟨he, rfl, (hall.2.2.1 4 (.ofText "a.js" "\x7d" { onError := .keepGoing }) (hall.1 0 0) he rfl).1⟩

end EcmaScript
