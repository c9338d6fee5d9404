import EcmaScript.Proofs.Grammar.Outcome
import EcmaScript.Proofs.Script.Statement
import EcmaScript.Proofs.Segments

/-!
# The cursor moves forward

At all times the cursor stands on a token of the text, the last token that was read ends before it, and
the lexer goes on right behind it: `State.Standing`. A production moves the cursor in two ways. It reads
the token, or it has the token read again, which leaves the start of the token where it is. So what a
production has done to the cursor is a list of tokens that it has read, one behind the other:
`Reads s tokens t`. Whatever else it does leaves the cursor alone.

## Contents

* `State.Standing`: the invariant of the cursor.
* `Reads`: the tokens that were read on the way from one state to another.
* `Reads.forward`: where these tokens lie, and how many there can be.
* `Composed.reads`: every production reads a list of tokens.
-/

namespace EcmaScript

namespace Grammar

/-! ## Where the cursor stands -/

/-- The cursor stands on a token of the text, right behind which the lexer goes on. -/
structure State.Standing (text : List Char) (s : State) : Prop where
  lexer : s.lexer.Sound
  reads : s.lexer.text = text
  current : s.current.Located text
  spelled : s.current.Spelled text
  behind : s.lastStop ≤ s.current.span.offset
  ahead : s.current.span.stop = s.lexer.position.offset
  finished : s.current.isEnd = true → s.lexer.rest = [] ∧ s.current.span.length = 0

/-- The token that is read when the cursor moves on: the end of the text is none. -/
def State.taken (s : State) : List Token := if s.current.isEnd then [] else [s.current]

/-- How many tokens there can be from the cursor on. -/
def State.tokensLeft (s : State) : Nat :=
  if s.current.isEnd then 0 else s.lexer.rest.length + 1

/-- What leaves the cursor alone: at most the notes of the lexer are passed on. -/
structure State.Idle (s t : State) : Prop where
  lexer : t.lexer = s.lexer ∨ t.lexer = { s.lexer with diagnostics := #[], features := #[] }
  current : t.current = s.current
  lastStop : t.lastStop = s.lastStop
  options : t.options = s.options

namespace State

variable {text : List Char} {s t : State}

theorem idle_context (s : State) (c : Context) : s.Idle { s with context := c } :=
  ⟨.inl rfl, rfl, rfl, rfl⟩

theorem idle_journal (s : State) (j : Journal) : s.Idle { s with journal := j } :=
  ⟨.inl rfl, rfl, rfl, rfl⟩

theorem idle_flushed (s : State) : s.Idle s.flushed := ⟨.inr rfl, rfl, rfl, rfl⟩

theorem Idle.rest (h : s.Idle t) : t.lexer.rest = s.lexer.rest := by
  obtain h | h := h.lexer <;> rw [h]

theorem Idle.tokensLeft (h : s.Idle t) : t.tokensLeft = s.tokensLeft := by
  unfold State.tokensLeft
  rw [h.current, h.rest]

namespace Standing

theorem idle (h : s.Standing text) (hi : s.Idle t) : t.Standing text := by
  have hl : t.lexer.Sound ∧ t.lexer.text = s.lexer.text ∧
      t.lexer.position = s.lexer.position ∧ t.lexer.rest = s.lexer.rest := by
    obtain hl | hl := hi.lexer
    · rw [hl]
      exact ⟨h.lexer, rfl, rfl, rfl⟩
    · rw [hl]
      exact ⟨h.lexer.takeDiagnostics.takeFeatures, rfl, rfl, rfl⟩
  obtain ⟨hsound, htext, hposition, hrest⟩ := hl
  refine ⟨hsound, htext.trans h.reads, ?_, ?_, ?_, ?_, ?_⟩
  · exact hi.current ▸ h.current
  · exact hi.current ▸ h.spelled
  · rw [hi.current, hi.lastStop]
    exact h.behind
  · rw [hi.current, hposition]
    exact h.ahead
  · rw [hi.current, hrest]
    exact h.finished

/-! ### One token further -/

theorem advances (h : s.Standing text) :
    ∃ segments, Lexer.Advances s.lexer segments s.lexer.nextToken :=
  Lexer.exists_advances_nextTokenFrom h.lexer false

/-- The next token starts behind the one under the cursor. -/
theorem stop_le_advanced (h : s.Standing text) :
    s.current.span.stop ≤ s.advanced.current.span.offset := by
  obtain ⟨xs, hx⟩ := h.advances
  rw [h.ahead]
  exact hx.forward

theorem advanced (h : s.Standing text) : s.advanced.Standing text := by
  obtain ⟨xs, hx⟩ := h.advances
  exact ⟨hx.tiled.sound, hx.gives.text.trans h.reads, h.reads ▸ hx.token, h.reads ▸ hx.spelled,
    h.stop_le_advanced, hx.stop, hx.finished⟩

theorem rest_length (h : s.Standing text) :
    s.lexer.rest.length = text.length - s.lexer.position.offset := by
  rw [h.lexer.rest, h.reads, List.length_drop]

theorem position_le (h : s.Standing text) : s.lexer.position.offset ≤ text.length :=
  h.reads ▸ h.lexer.place.offset_le

/-- Behind the end of the text there is nothing but the end of the text. -/
theorem isEnd_advanced (h : s.Standing text) (he : s.current.isEnd = true) :
    s.advanced.current.isEnd = true := by
  obtain ⟨xs, hx⟩ := h.advances
  refine Decidable.byContradiction fun hne => ?_
  have hlt : s.lexer.position.offset < s.advanced.lexer.position.offset :=
    hx.offset_lt (Bool.eq_false_iff.mpr hne)
  have hle := h.advanced.position_le
  have hrest := h.rest_length
  rw [(h.finished he).1, List.length_nil] at hrest
  omega

theorem offset_advanced (h : s.Standing text) :
    s.current.span.offset + s.taken.length ≤ s.advanced.current.span.offset := by
  have hle := h.stop_le_advanced
  unfold Span.stop at hle
  unfold taken
  cases he : s.current.isEnd with
  | true => exact Nat.le_trans (Nat.le_add_right _ _) hle
  | false =>
      have hpos := h.current.pos he
      simp only [Bool.false_eq_true, if_false, List.length_singleton]
      omega

theorem le_advanced (h : s.Standing text) :
    s.current.span.offset ≤ s.advanced.current.span.offset :=
  Nat.le_trans (Nat.le_add_right _ _) h.offset_advanced

theorem tokensLeft_advanced (h : s.Standing text) :
    s.advanced.tokensLeft + s.taken.length ≤ s.tokensLeft := by
  unfold tokensLeft taken
  cases he : s.current.isEnd with
  | true =>
      rw [h.isEnd_advanced he]
      exact Nat.le_refl _
  | false =>
      simp only [Bool.false_eq_true, if_false, List.length_singleton]
      split
      · omega
      next hne =>
        obtain ⟨xs, hx⟩ := h.advances
        have hlt : s.lexer.position.offset < s.advanced.lexer.position.offset :=
          hx.offset_lt (Bool.eq_false_iff.mpr hne)
        have hle := h.advanced.position_le
        have hrest := h.rest_length
        have hrest' := h.advanced.rest_length
        omega

/-! ### A token read again -/

theorem rereads (h : s.Standing text) {r : Rereading} (hr : r.applies s.current = true) :
    Lexer.Gives s.lexer (r.read s.lexer s.current) ∧
      Lexer.Rereads s.current (r.read s.lexer s.current) := by
  have hl : s.current.Located s.lexer.text := h.reads ▸ h.current
  have hm : s.current.Spelled s.lexer.text := h.reads ▸ h.spelled
  cases r with
  | regExp =>
      have hr : s.current.isMark .slash = true ∨ s.current.isMark .slashAssign = true := by
        simpa [Rereading.applies] using hr
      have he := hr.elim Token.isEnd_of_isMark Token.isEnd_of_isMark
      exact ⟨Lexer.gives_rescanRegExp h.lexer hl he, Lexer.rereads_rescanRegExp h.lexer hl hm hr⟩
  | template =>
      have he := Token.isEnd_of_isMark (show s.current.isMark .rightBrace = true from hr)
      exact ⟨Lexer.gives_rescanTemplate h.lexer hl he, Lexer.rereads_rescanTemplate h.lexer hl hm hr⟩

theorem isEnd_of_applies {r : Rereading} {token : Token} (hr : r.applies token = true) :
    token.isEnd = false := by
  cases r with
  | regExp =>
      have hr : token.isMark .slash = true ∨ token.isMark .slashAssign = true := by
        simpa [Rereading.applies] using hr
      exact hr.elim Token.isEnd_of_isMark Token.isEnd_of_isMark
  | template => exact Token.isEnd_of_isMark (show token.isMark .rightBrace = true from hr)

theorem readAgain (h : s.Standing text) (r : Rereading) : (s.readAgain r).Standing text := by
  unfold State.readAgain
  split
  next hr =>
    obtain ⟨hg, ha⟩ := h.rereads hr
    refine ⟨hg.sound, hg.text.trans h.reads, h.reads ▸ hg.token, ?_, ?_, ha.stop, ?_⟩
    · exact fun mark hk => absurd hk (ha.isMark mark)
    · exact Nat.le_trans h.behind (Nat.le_of_eq ha.offset.symm)
    · exact fun he => absurd he (by rw [ha.isEnd]; exact Bool.false_ne_true)
  next => exact h

/-- The token that is read again starts where it did, and it does not become shorter. -/
theorem offset_readAgain (h : s.Standing text) (r : Rereading) :
    (s.readAgain r).current.span.offset = s.current.span.offset := by
  unfold State.readAgain
  split
  next hr => exact (h.rereads hr).2.offset
  next => rfl

theorem isEnd_readAgain (h : s.Standing text) (r : Rereading) :
    (s.readAgain r).current.isEnd = s.current.isEnd := by
  unfold State.readAgain
  split
  next hr => exact (h.rereads hr).2.isEnd.trans (isEnd_of_applies hr).symm
  next => rfl

theorem rest_readAgain (h : s.Standing text) (r : Rereading) :
    (s.readAgain r).lexer.rest.length ≤ s.lexer.rest.length := by
  have hrest := h.rest_length
  have hrest' := (h.readAgain r).rest_length
  have hle : s.lexer.position.offset ≤ (s.readAgain r).lexer.position.offset := by
    rw [← h.ahead, ← (h.readAgain r).ahead]
    unfold State.readAgain
    split
    next hr => exact (h.rereads hr).2.reach
    next => exact Nat.le_refl _
  omega

theorem tokensLeft_readAgain (h : s.Standing text) (r : Rereading) :
    (s.readAgain r).tokensLeft ≤ s.tokensLeft := by
  have hrest := h.rest_readAgain r
  unfold tokensLeft
  rw [h.isEnd_readAgain r]
  split <;> omega

end Standing

theorem lastStop_readAgain (s : State) (r : Rereading) : (s.readAgain r).lastStop = s.lastStop := by
  unfold readAgain
  split <;> rfl

theorem standing_ofText (source : String) (options : Options) (journal : Journal) :
    (ofText source options journal).Standing source.toList := by
  have hs := Lexer.sound_ofChars source.toList options.isStrict
  have ht := Lexer.text_ofChars source.toList options.isStrict
  obtain ⟨xs, hx⟩ := Lexer.exists_advances_nextTokenFrom hs false
  exact ⟨hx.tiled.sound, hx.gives.text.trans ht, ht ▸ hx.token, ht ▸ hx.spelled, Nat.zero_le _,
    hx.stop, hx.finished⟩

end State

/-! ## The tokens that were read -/

/-- `Reads s tokens t`: from the state `s` one comes to the state `t` by reading the tokens, one behind
the other. -/
inductive Reads : State → List Token → State → Prop where
  | stay (s : State) : Reads s [] s
  /-- Something was done that leaves the cursor alone. -/
  | idle {s u t : State} {tokens : List Token} : s.Idle u → Reads u tokens t → Reads s tokens t
  /-- The token under the cursor was read again. -/
  | again {s t : State} {tokens : List Token} (r : Rereading) :
      Reads (s.readAgain r) tokens t → Reads s tokens t
  /-- The token under the cursor was read. -/
  | advance {s t : State} {tokens : List Token} :
      Reads s.advanced tokens t → Reads s (s.taken ++ tokens) t

/-- How far one comes by reading the tokens. -/
structure Forward (text : List Char) (s : State) (tokens : List Token) (t : State) : Prop where
  standing : t.Standing text
  offset : s.current.span.offset + tokens.length ≤ t.current.span.offset
  lastStop : s.lastStop ≤ t.lastStop
  tokensLeft : t.tokensLeft + tokens.length ≤ s.tokensLeft
  isEnd : s.current.isEnd = true → t.current.isEnd = true
  within : ∀ token ∈ tokens, token.Located text ∧ token.isEnd = false ∧
    s.current.span.offset ≤ token.span.offset ∧ token.span.stop ≤ t.lastStop

theorem Forward.le {text : List Char} {s t : State} {tokens : List Token}
    (h : Forward text s tokens t) : s.current.span.offset ≤ t.current.span.offset :=
  Nat.le_trans (Nat.le_add_right _ _) h.offset

namespace Reads

variable {text : List Char} {s t u : State} {xs ys : List Token}

theorem trans (h : Reads s xs t) (h' : Reads t ys u) : Reads s (xs ++ ys) u := by
  induction h with
  | stay s => exact h'
  | idle hi _ ih => exact .idle hi (ih h')
  | again r _ ih => exact .again r (ih h')
  | advance _ ih =>
      rw [List.append_assoc]
      exact .advance (ih h')

theorem of_idle (h : s.Idle t) : Reads s [] t := .idle h (.stay t)

theorem options (h : Reads s xs t) : t.options = s.options := by
  induction h with
  | stay s => rfl
  | idle hi _ ih => exact ih.trans hi.options
  | again r _ ih => exact ih.trans (State.readAgain_options _ r)
  | advance _ ih => exact ih

/-- **The tokens lie one behind the other**, from the cursor on and no further than the last token that
was read; and there are at most as many as were left. -/
theorem forward (h : Reads s xs t) (hs : s.Standing text) : Forward text s xs t := by
  induction h with
  | stay s => exact ⟨hs, Nat.le_refl _, Nat.le_refl _, Nat.le_refl _, id, List.forall_mem_nil _⟩
  | idle hi _ ih =>
      have hf := ih (hs.idle hi)
      refine ⟨hf.standing, ?_, ?_, ?_, ?_, ?_⟩
      · exact hi.current ▸ hf.offset
      · exact hi.lastStop ▸ hf.lastStop
      · exact hi.tokensLeft ▸ hf.tokensLeft
      · exact hi.current ▸ hf.isEnd
      · exact hi.current ▸ hf.within
  | @again s t xs r _ ih =>
      have hf := ih (hs.readAgain r)
      have ho := hs.offset_readAgain r
      refine ⟨hf.standing, ho ▸ hf.offset, ?_, ?_, ?_, ?_⟩
      · exact s.lastStop_readAgain r ▸ hf.lastStop
      · exact Nat.le_trans hf.tokensLeft (hs.tokensLeft_readAgain r)
      · exact hs.isEnd_readAgain r ▸ hf.isEnd
      · exact ho ▸ hf.within
  | @advance s t xs _ ih =>
      have hf := ih hs.advanced
      have ho := hs.offset_advanced
      have hl : s.current.span.stop ≤ t.lastStop := hf.lastStop
      refine ⟨hf.standing, ?_, ?_, ?_, ?_, ?_⟩
      · have := hf.offset
        rw [List.length_append]
        omega
      · exact Nat.le_trans (Nat.le_trans hs.behind (Nat.le_add_right _ _)) hl
      · have := hf.tokensLeft
        have := hs.tokensLeft_advanced
        rw [List.length_append]
        omega
      · exact fun he => hf.isEnd (hs.isEnd_advanced he)
      · intro token hm
        obtain hm | hm := List.mem_append.mp hm
        · unfold State.taken at hm
          split at hm
          · cases hm
          next he =>
            cases List.mem_singleton.mp hm
            exact ⟨hs.current, Bool.eq_false_iff.mpr he, Nat.le_refl _, hl⟩
        · obtain ⟨hloc, hend, hle, hstop⟩ := hf.within token hm
          exact ⟨hloc, hend, by omega, hstop⟩

end Reads

/-- **Every production reads a list of tokens.** -/
theorem Composed.reads {α : Type} {p : Production α} (h : Composed p) (s : State) :
    ∃ tokens, Reads s tokens (stateOf (p s)) := by
  induction h generalizing s with
  | pure a => exact ⟨[], .stay s⟩
  | look f => exact ⟨[], .stay s⟩
  | advance => exact ⟨_, .advance (.stay _)⟩
  | reread r => exact ⟨_, .again r (.advance (.stay _))⟩
  | fail q position _ => exact ⟨[], .stay s⟩
  | trailingComma comma place =>
      refine ⟨[], .of_idle ?_⟩
      refine stateOf_bind (P := s.Idle) (s.idle_journal _) fun _ t ht => ?_
      cases ht
      show s.Idle (stateOf ((if _ then _ else _ : Production Unit) _))
      split <;> exact s.idle_journal _
  | @within α p change _ ih =>
      obtain ⟨xs, hx⟩ := ih { s with context := change s.context }
      refine ⟨xs ++ [], .trans (.idle (s.idle_context _) hx) (.of_idle ?_)⟩
      unfold Grammar.within
      cases p { s with context := change s.context } <;> exact State.idle_context _ _
  | @bind α β p f _ _ ihp ihf =>
      obtain ⟨xs, hx⟩ := ihp s
      refine stateOf_bind (P := fun t => ∃ tokens, Reads s tokens t) ⟨xs, hx⟩ fun a t ht => ?_
      rw [ht] at hx
      obtain ⟨ys, hy⟩ := ihf a t
      exact ⟨xs ++ ys, hx.trans hy⟩
  | @reporting α p handler _ _ ihp ihh =>
      obtain ⟨xs, hx⟩ := ihp s
      unfold Grammar.reporting
      cases hp : p s with
      | ok a t =>
          rw [hp] at hx
          exact ⟨xs, hx⟩
      | error e t =>
          rw [hp] at hx
          dsimp only
          split
          · obtain ⟨ys, hy⟩ := ihh { t with journal := t.journal.failure e }
            exact ⟨xs ++ ys, hx.trans (.idle (t.idle_journal _) hy)⟩
          · exact ⟨xs, hx⟩

/-- Behind a production the cursor stands no less far than before it. -/
theorem Composed.forward {α : Type} {p : Production α} (h : Composed p) {text : List Char}
    {s : State} (hs : s.Standing text) : ∃ tokens, Forward text s tokens (stateOf (p s)) :=
  have ⟨tokens, hr⟩ := h.reads s
  ⟨tokens, hr.forward hs⟩

theorem Composed.forward_of_ok {α : Type} {p : Production α} (h : Composed p) {text : List Char}
    {s t : State} {a : α} (hs : s.Standing text) (ht : p s = .ok a t) :
    ∃ tokens, Forward text s tokens t := by
  have hf := h.forward hs
  rwa [ht] at hf

end Grammar

end EcmaScript
