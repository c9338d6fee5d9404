import EcmaScript.Proofs.Grammar.Outcome

/-!
# Stopping and going on

The same production is run twice from the same cursor: once in a parse that stops at the first failure,
once in a parse that goes on. As long as nothing fails the two runs are the same. When the first run
fails, the second has failed at the same place with the same problem; but it may have caught that failure
in a list of statements, written it down, and read on. `Follows` has a case for each. In the last case
nothing is known of where the second run ends, but it ends in a later state of the very state in which
the first run failed, with the failure written down (`Growth`).

The induction goes through because what follows an overtaken run only adds to it.
-/

namespace EcmaScript

namespace Grammar

/-- The state in a parse that goes on behind failures. -/
def State.goingOn (s : State) : State :=
  { s with options := { s.options with onError := .keepGoing } }

/-- The state with a failure written down. -/
def State.failed (s : State) (e : Failure) : State := { s with journal := s.journal.failure e }

/-- How the run that goes on (right) ends, given how the run that stops (left) ends. -/
inductive Follows {α : Type} :
    EStateM.Result Failure State α → EStateM.Result Failure State α → Prop where
  /-- Neither fails. -/
  | agrees (a : α) (t : State) : Follows (.ok a t) (.ok a t.goingOn)
  /-- Both fail, and nothing has caught the failure. -/
  | fails (e : Failure) (t : State) : Follows (.error e t) (.error e t.goingOn)
  /-- The failure of the first is caught in the second. -/
  | overtaken (e : Failure) (t : State) (r : EStateM.Result Failure State α) :
      Growth (t.failed e).goingOn (stateOf r) → Follows (.error e t) r

theorem State.readAgain_goingOn (s : State) (r : Rereading) :
    s.goingOn.readAgain r = (s.readAgain r).goingOn := by
  unfold readAgain goingOn
  dsimp only
  split <;> rfl

/-- A failure that is written down is one remark more. -/
theorem growth_failed {e : Failure} {s : State} {q : Problem} {position : Position}
    (hq : q.EndsProduction) (he : e = .unexpected q.message position) : Growth s (s.failed e) := by
  refine ⟨.refl _, rfl, [.problem position q], ?_, ?_⟩
  · intro r hr
    rw [List.mem_singleton.mp hr]
    exact .problem _ _ hq
  · rw [he]
    rfl

/-- What a production does behind an overtaken run. -/
theorem Growth.composed {α : Type} {p : Production α} (h : Composed p) {s t : State}
    (hg : Growth s t) (hs : s.Synced) : Growth s (stateOf (p t)) :=
  hg.trans (h.growth (hg.synced hs))

/-! ## One lemma for each combinator -/

section Combinators

variable {α β : Type} {p : Production α} {s : State}

/-- The state of a failed run, with the failure written down, still has one edition. -/
theorem Composed.synced_failed (h : Composed p) (hs : s.Synced) {e : Failure} {t : State}
    (he : p s = .error e t) : (t.failed e).goingOn.Synced := by
  obtain ⟨q, position, hq, hf⟩ := h.failure_of_error hs he
  have ht : Growth s t := by
    have := h.growth hs
    rwa [he] at this
  exact (ht.trans (growth_failed hq hf)).synced hs

theorem follows_within {change : Context → Context}
    (h : Follows (p { s with context := change s.context })
      (p { s.goingOn with context := change s.goingOn.context })) :
    Follows (within change p s) (within change p s.goingOn) := by
  unfold within
  generalize p { s with context := change s.context } = r at h ⊢
  generalize p { s.goingOn with context := change s.goingOn.context } = r' at h ⊢
  cases h with
  | agrees a t => exact .agrees a _
  | fails e t => exact .fails e _
  | overtaken e t _ hg =>
      refine .overtaken e _ _ ?_
      cases r' <;> exact ⟨hg.lexer, hg.options, hg.journal⟩

theorem follows_bind {f : α → Production β} (hp : Composed p) (hf : ∀ a, Composed (f a))
    (hs : s.Synced) (h : Follows (p s) (p s.goingOn))
    (hn : ∀ a t, p s = .ok a t → Follows (f a t) (f a t.goingOn)) :
    Follows ((p >>= f) s) ((p >>= f) s.goingOn) := by
  generalize hr : p s = r at h hn
  generalize hr' : p s.goingOn = r' at h
  cases h with
  | agrees a t =>
      rw [bind_ok hr, bind_ok hr']
      exact hn a t rfl
  | fails e t =>
      rw [bind_error hr, bind_error hr']
      exact .fails e t
  | overtaken e t _ hg =>
      rw [bind_error hr]
      refine .overtaken e t _ ?_
      -- the run that goes on may have a result and read on with it: that only adds
      cases r' with
      | ok a u =>
          rw [bind_ok hr']
          exact hg.composed (hf a) (hp.synced_failed hs hr)
      | error e' u =>
          rw [bind_error hr']
          exact hg

/-- A list of statements is where the two runs part. -/
theorem follows_reporting {handler : Production α} (hp : Composed p) (hh : Composed handler)
    (hs : s.Synced) (hk : s.options.keepGoing = false) (h : Follows (p s) (p s.goingOn)) :
    Follows (reporting p handler s) (reporting p handler s.goingOn) := by
  have hst := hp.growth hs
  have hst' := @Composed.growth _ _ s.goingOn hp hs
  unfold reporting
  generalize hr : p s = r at h hst
  generalize hr' : p s.goingOn = r' at h hst'
  cases h with
  | agrees a t => exact .agrees a t
  | fails e t =>
      -- here the failure is caught in one of the runs only
      have ht : t.options.keepGoing = false := hst.options ▸ hk
      simp only [ht]
      refine .overtaken e t _ ?_
      exact hh.growth (hp.synced_failed hs hr)
  | overtaken e t _ hg =>
      have ht : t.options.keepGoing = false := hst.options ▸ hk
      simp only [ht]
      refine .overtaken e t _ ?_
      cases r' with
      | ok a u => exact hg
      | error e' u =>
          -- a second failure, of which the first run knows nothing, is caught as well
          obtain ⟨q, position, hq, hf⟩ := @Composed.failure_of_error _ _ s.goingOn _ _ hp hs hr'
          have hu : u.options.keepGoing = true := by
            have ho : u.options = s.goingOn.options := hst'.options
            rw [ho]
            rfl
          simp only [hu]
          exact (hg.trans (growth_failed hq hf)).composed hh (hp.synced_failed hs hr)

end Combinators

/-- **The run that goes on follows the run that stops.** -/
theorem Composed.follows {α : Type} {p : Production α} (h : Composed p) {s : State} (hs : s.Synced)
    (hk : s.options.keepGoing = false) : Follows (p s) (p s.goingOn) := by
  induction h generalizing s with
  | pure a => exact .agrees a s
  | look f => exact .agrees _ s
  | advance => exact .agrees _ _
  | reread r =>
      rw [reread_eq, reread_eq, State.readAgain_goingOn]
      exact .agrees _ _
  | fail p position _ => exact .fails _ s
  | trailingComma comma place =>
      have hrun := noteTrailingComma_noting s s.journal comma place
      have hrun' := noteTrailingComma_noting s.goingOn s.goingOn.journal comma place
      rw [State.noting_journal hs] at hrun
      rw [State.noting_journal (show s.goingOn.Synced from hs)] at hrun'
      rw [hrun, hrun']
      exact .agrees () _
  | @within α p change hp ih => exact follows_within (@ih { s with context := change s.context } hs hk)
  | @bind α β p f hp hf ihp ihf =>
      refine follows_bind hp hf hs (ihp hs hk) fun a t ht => ?_
      have hg : Growth s t := by
        have := hp.growth hs
        rwa [ht] at this
      exact ihf a (hg.synced hs) (hg.options ▸ hk)
  | @reporting α p handler hp hh ihp _ => exact follows_reporting hp hh hs hk (ihp hs hk)

end Grammar

end EcmaScript
