import EcmaScript.Proofs.Grammar.Productions

/-!
# What a production does, whatever was noted before

A production writes into the journal but never reads it, and the edition of the journal decides only
what is reported for a remark. So from a given cursor a production has one `Outcome`: a result, a state,
and the list of remarks it makes. Run under any journal, of any edition, it gives that result and adds
those remarks (`Composed.outcome`). The outcome is lawful: failures and remarks are grammatical ones,
the lexer has only moved on, and the options are what they were.

`Growth` states the same between the two ends of a run, for a state whose journal has the edition of its
options.
-/

namespace EcmaScript

namespace Grammar

/-- The state with another journal, and with the edition of that journal. -/
def State.noting (s : State) (j : Journal) : State :=
  { s with journal := j, options := { s.options with edition := j.edition } }

/-- Journal and options agree on the edition. -/
def State.Synced (s : State) : Prop := s.journal.edition = s.options.edition

theorem State.noting_journal {s : State} (h : s.Synced) : s.noting s.journal = s := by
  obtain ⟨lexer, current, lastStop, context, journal, options⟩ := s
  obtain ⟨edition, strictness, comments, onError, allowed⟩ := options
  have he : journal.edition = edition := h
  show State.mk _ _ _ _ _ ⟨journal.edition, _, _, _, _⟩ = _
  rw [he]

/-! ## Outcomes -/

/-- What a production does from a cursor. -/
structure Outcome (α : Type) where
  result : Except (Problem × Position) α
  /-- The state behind it, up to journal and edition. -/
  state : State
  /-- The remarks it makes, in order. -/
  remarks : List Remark

namespace Outcome

variable {α : Type}

/-- The outcome under a journal. -/
def under (o : Outcome α) (j : Journal) : EStateM.Result Failure State α :=
  match o.result with
  | .ok a => .ok a (o.state.noting (j.notes o.remarks))
  | .error (p, position) =>
    .error (.unexpected p.message position) (o.state.noting (j.notes o.remarks))

/-- What holds of every outcome from the state `s`. -/
structure Lawful (o : Outcome α) (s : State) : Prop where
  problem : ∀ {p : Problem} {position : Position}, o.result = .error (p, position) →
    p.EndsProduction
  lexer : s.lexer.Grows o.state.lexer
  options : o.state.options = s.options
  remarks : ∀ r ∈ o.remarks, r.Grammatical

/-- An outcome without remarks. -/
def silent (result : Except (Problem × Position) α) (state : State) : Outcome α := ⟨result, state, []⟩

/-- The outcome with remarks made before it. -/
def after (rs : List Remark) (o : Outcome α) : Outcome α := ⟨o.result, o.state, rs ++ o.remarks⟩

theorem under_ok {o : Outcome α} {a : α} (h : o.result = .ok a) (j : Journal) :
    o.under j = .ok a (o.state.noting (j.notes o.remarks)) := by
  unfold under
  rw [h]

theorem under_error {o : Outcome α} {e : Problem × Position} (h : o.result = .error e)
    (j : Journal) :
    o.under j =
      .error (.unexpected e.1.message e.2) (o.state.noting (j.notes o.remarks)) := by
  unfold under
  rw [h]

theorem under_after (rs : List Remark) (o : Outcome α) (j : Journal) :
    (o.after rs).under j = o.under (j.notes rs) := by
  unfold under after
  rw [Journal.notes_notes]

theorem Lawful.silent (a : α) {s t : State} (hl : s.lexer.Grows t.lexer)
    (ho : t.options = s.options) : (Outcome.silent (.ok a) t).Lawful s :=
  ⟨nofun, hl, ho, List.forall_mem_nil _⟩

/-- One outcome behind another. -/
theorem Lawful.after {o : Outcome α} {s t : State} {rs : List Remark} (h : o.Lawful t)
    (hl : s.lexer.Grows t.lexer) (ho : t.options = s.options) (hr : ∀ r ∈ rs, r.Grammatical) :
    (o.after rs).Lawful s := by
  refine ⟨h.problem, hl.trans h.lexer, h.options.trans ho, fun r hm => ?_⟩
  rcases List.mem_append.mp hm with hm | hm
  · exact hr r hm
  · exact h.remarks r hm

end Outcome

/-! ## Reading a token again -/

namespace State

variable (s : State) (r : Rereading)

theorem grows_readAgain : s.lexer.Grows (s.readAgain r).lexer := by
  unfold readAgain
  split
  · exact r.grows _ _
  · exact .refl _

theorem readAgain_options : (s.readAgain r).options = s.options := by
  unfold readAgain
  split <;> rfl

theorem readAgain_noting (j : Journal) : (s.noting j).readAgain r = (s.readAgain r).noting j := by
  unfold readAgain noting
  dsimp only
  split <;> rfl

end State

/-! ## Every composed production has an outcome -/

theorem note_noting (f : Journal → Journal) {j : Journal} {rs : List Remark} (h : f j = j.notes rs)
    (s : State) : note f (s.noting j) = .ok () (s.noting (j.notes rs)) := by
  show EStateM.Result.ok () { s.noting j with journal := f j } = _
  rw [h]
  rfl

/-- A comma before a closing parenthesis is one remark. -/
theorem noteTrailingComma_noting (s : State) (j : Journal) (comma : Position) (place : CommaPlace) :
    noteTrailingComma comma place.problem (s.noting j) =
      .ok () (s.noting (j.notes [.trailingComma comma place])) := by
  have hn := note_noting (·.record .trailingCommaInParamList comma) (j.record_eq _ comma) s
  rw [← j.record_trailingComma, j.record_eq]
  unfold noteTrailingComma
  rw [bind_ok hn, get_bind]
  show (if Edition.es2017 ≤ j.edition then _ else _ : Production Unit) _ = _
  split
  · rfl
  · exact note_noting (·.error comma place.problem) (Journal.error_eq _ comma _) s

/-- **A production does the same under every journal.** -/
theorem Composed.outcome {α : Type} {p : Production α} (h : Composed p) (s : State) :
    ∃ o : Outcome α, o.Lawful s ∧ ∀ j, p (s.noting j) = o.under j := by
  induction h generalizing s with
  | pure a => exact ⟨.silent (.ok a) s, .silent a (.refl _) rfl, fun _ => rfl⟩
  | look f => exact ⟨.silent (.ok (f s.cursor)) s, .silent _ (.refl _) rfl, fun _ => rfl⟩
  | advance =>
      refine ⟨.silent (.ok s.current)
        { s with lexer := s.lexer.nextToken.2, current := s.lexer.nextToken.1,
                 lastStop := s.current.span.stop }, ?_, fun _ => rfl⟩
      exact .silent _ s.lexer.grows_nextToken rfl
  | reread r =>
      refine ⟨.silent (.ok (s.readAgain r).current) (s.readAgain r).advanced, ?_, fun j => ?_⟩
      · exact .silent _ ((s.grows_readAgain r).trans (Lexer.grows_nextToken _))
          (s.readAgain_options r)
      · rw [reread_eq, State.readAgain_noting]
        rfl
  | fail p position hp =>
      refine ⟨.silent (.error (p, position)) s, ⟨?_, .refl _, rfl, List.forall_mem_nil _⟩, fun _ => rfl⟩
      intro q place hq
      cases hq
      exact hp
  | trailingComma comma place =>
      refine ⟨⟨.ok (), s, [.trailingComma comma place]⟩, ⟨nofun, .refl _, rfl, ?_⟩, fun j => ?_⟩
      · intro r hr
        rw [List.mem_singleton.mp hr]
        exact .trailingComma comma place
      · exact noteTrailingComma_noting s j comma place
  | @within α p change _ ih =>
      obtain ⟨o, ho, hrun⟩ := ih { s with context := change s.context }
      refine ⟨⟨o.result, { o.state with context := s.context }, o.remarks⟩,
        ⟨ho.problem, ho.lexer, ho.options, ho.remarks⟩, fun j => ?_⟩
      unfold Grammar.within
      -- the context is put back on both ways out
      rw [show p { s.noting j with context := change (s.noting j).context } = o.under j from hrun j]
      unfold Outcome.under
      cases o.result <;> rfl
  | @bind α β p f _ _ ihp ihf =>
      obtain ⟨o, ho, hrun⟩ := ihp s
      cases hres : o.result with
      | ok a =>
          -- the second part starts in the state behind the first, under the remarks of the first
          obtain ⟨o', ho', hrun'⟩ := ihf a o.state
          refine ⟨o'.after o.remarks, ho'.after ho.lexer ho.options ho.remarks, fun j => ?_⟩
          rw [Outcome.under_after, ← hrun']
          exact bind_ok ((hrun j).trans (Outcome.under_ok hres j))
      | error e =>
          refine ⟨⟨.error e, o.state, o.remarks⟩, ⟨?_, ho.lexer, ho.options, ho.remarks⟩, fun j => ?_⟩
          · intro q position hq
            cases hq
            exact ho.problem hres
          · exact bind_error ((hrun j).trans (Outcome.under_error hres j))
  | @reporting α p handler _ _ ihp ihh =>
      obtain ⟨o, ho, hrun⟩ := ihp s
      cases hres : o.result with
      | ok a =>
          refine ⟨o, ho, fun j => ?_⟩
          unfold Grammar.reporting
          rw [hrun j, Outcome.under_ok hres]
      | error e =>
          cases hk : s.options.keepGoing with
          | true =>
              -- the failure becomes one more remark between those of the two parts
              obtain ⟨o', ho', hrun'⟩ := ihh o.state
              refine ⟨o'.after (o.remarks ++ [Remark.problem e.2 e.1]),
                ho'.after ho.lexer ho.options ?_, fun j => ?_⟩
              · intro r hr
                rcases List.mem_append.mp hr with hr | hr
                · exact ho.remarks r hr
                · rw [List.mem_singleton.mp hr]
                  exact .problem _ _ (ho.problem hres)
              · unfold Grammar.reporting
                rw [hrun j, Outcome.under_error hres, Outcome.under_after, ← hrun', ← Journal.notes_notes]
                show (if o.state.options.keepGoing then _ else _) = _
                rw [ho.options, if_pos hk]
                rfl
          | false =>
              refine ⟨o, ho, fun j => ?_⟩
              unfold Grammar.reporting
              rw [hrun j, Outcome.under_error hres]
              show (if o.state.options.keepGoing then _ else _) = _
              rw [ho.options, hk]
              rfl

/-! ## Growth -/

/-- The state behind a run. -/
def stateOf {α : Type} : EStateM.Result Failure State α → State
  | .ok _ t => t
  | .error _ t => t

/-- What holds behind a bind: it holds behind the first part, and behind the second from there on. -/
theorem stateOf_bind {α β : Type} {p : Production α} {f : α → Production β} {s : State}
    {P : State → Prop} (hp : P (stateOf (p s)))
    (hf : ∀ a t, p s = .ok a t → P (stateOf (f a t))) : P (stateOf ((p >>= f) s)) := by
  cases h : p s with
  | ok a t =>
      rw [bind_ok h]
      exact hf a t h
  | error e t =>
      rw [bind_error h]
      rw [h] at hp
      exact hp

/-- `t` is what a production can make of `s`. -/
structure Growth (s t : State) : Prop where
  lexer : s.lexer.Grows t.lexer
  options : t.options = s.options
  journal : ∃ rs, (∀ r ∈ rs, Remark.Grammatical r) ∧ t.journal = s.journal.notes rs

namespace Growth

variable {s t u : State}

theorem synced (h : Growth s t) (hs : s.Synced) : t.Synced := by
  obtain ⟨rs, _, hj⟩ := h.journal
  unfold State.Synced at *
  rw [hj, h.options]
  exact hs

theorem trans (h : Growth s t) (h' : Growth t u) : Growth s u := by
  obtain ⟨rs, hr, hj⟩ := h.journal
  obtain ⟨qs, hq, hj'⟩ := h'.journal
  refine ⟨h.lexer.trans h'.lexer, h'.options.trans h.options, rs ++ qs, ?_, ?_⟩
  · intro r hm
    rcases List.mem_append.mp hm with hm | hm
    · exact hr r hm
    · exact hq r hm
  · rw [hj', hj, Journal.notes_notes]

end Growth

namespace Composed

variable {α : Type} {p : Production α} {s t : State} {e : Failure}

/-- A run under the journal that the state has. -/
theorem outcome_of_synced (h : Composed p) (hs : s.Synced) :
    ∃ o : Outcome α, o.Lawful s ∧ p s = o.under s.journal := by
  obtain ⟨o, ho, hrun⟩ := h.outcome s
  refine ⟨o, ho, ?_⟩
  rw [← hrun s.journal, State.noting_journal hs]

/-- **A production only adds**, to the notes of the lexer and to the journal. -/
theorem growth (h : Composed p) (hs : s.Synced) : Growth s (stateOf (p s)) := by
  obtain ⟨o, ho, hrun⟩ := h.outcome_of_synced hs
  have hst : stateOf (p s) = o.state.noting (s.journal.notes o.remarks) := by
    rw [hrun]
    unfold Outcome.under
    cases o.result <;> rfl
  rw [hst]
  refine ⟨ho.lexer, ?_, o.remarks, ho.remarks, rfl⟩
  show { o.state.options with edition := s.journal.edition } = s.options
  rw [ho.options, hs]

/-- A production fails with a problem of its own at a place. -/
theorem failure_of_error (h : Composed p) (hs : s.Synced) (he : p s = .error e t) :
    ∃ (q : Problem) (position : Position),
      q.EndsProduction ∧ e = .unexpected q.message position := by
  obtain ⟨o, ho, hrun⟩ := h.outcome_of_synced hs
  cases hres : o.result with
  | ok a =>
      rw [hrun, Outcome.under_ok hres] at he
      cases he
  | error x =>
      rw [hrun, Outcome.under_error hres] at he
      cases he
      exact ⟨x.1, x.2, ho.problem hres, rfl⟩

end Composed

end Grammar

end EcmaScript
