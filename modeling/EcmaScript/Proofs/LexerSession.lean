import EcmaScript.Proofs.Segments

/-!
# A lexer in use

Whoever holds a lexer can ask for the next token, have an earlier token read again as something else,
remember a state and come back to it, and take over what was noted, in any order. A `Session` is a lexer
with the tokens it has given out and the states that were remembered; a `Request` is one of these calls.

`Session.Sound` is kept by each request (`Session.Sound.serve`) and so by every list of requests
(`Session.Sound.serveAll`). It rests on what the lexer answers when it is asked for a token
(`Lexer.Gives`), so that no reader is looked at here again.
-/

namespace EcmaScript

/-- A call to a lexer. Earlier tokens and remembered states are named by their number. -/
inductive Request where
  | nextToken
  | rescanRegExp (token : Nat)
  | rescanTemplate (token : Nat)
  | save
  | restore (checkpoint : Nat)
  | takeComments
  | takeDiagnostics
  | takeFeatures

/-- A lexer with the tokens it gave out and the states that were remembered, first ones first. -/
structure Session where
  lexer : Lexer
  tokens : Array Token := #[]
  checkpoints : Array Lexer.Checkpoint := #[]

namespace Session

/-- Takes the answer of the lexer. -/
def receive (s : Session) (answer : Token × Lexer) : Session :=
  { s with lexer := answer.2, tokens := s.tokens.push answer.1 }

/-- Has an earlier token read again, unless it is the end of the text. -/
def rescan (s : Session) (read : Lexer → Token → Token × Lexer) (i : Nat) : Session :=
  match s.tokens[i]? with
  | some t => if t.isEnd then s else s.receive (read s.lexer t)
  | none => s

/-- Serves one request; a number that stands for nothing changes nothing. -/
def serve (s : Session) : Request → Session
  | .nextToken => s.receive s.lexer.nextToken
  | .rescanRegExp i => s.rescan Lexer.rescanRegExp i
  | .rescanTemplate i => s.rescan Lexer.rescanTemplate i
  | .save => { s with checkpoints := s.checkpoints.push s.lexer.save }
  | .restore i =>
    match s.checkpoints[i]? with
    | some c => { s with lexer := s.lexer.restore c }
    | none => s
  | .takeComments => { s with lexer := s.lexer.takeComments.2 }
  | .takeDiagnostics => { s with lexer := s.lexer.takeDiagnostics.2 }
  | .takeFeatures => { s with lexer := s.lexer.takeFeatures.2 }

/-- Serves the requests one after the other. -/
def serveAll (s : Session) (requests : List Request) : Session := requests.foldl serve s

end Session

/-! ## The invariant -/

namespace Session

/-- The lexer is sound, and all that it gave out stands in the text. -/
structure Sound (text : List Char) (s : Session) : Prop where
  lexer : s.lexer.Sound
  reads : s.lexer.text = text
  tokens : ∀ t ∈ s.tokens, t.Located text
  checkpoints : ∀ c ∈ s.checkpoints, c.Located text

namespace Sound

variable {text : List Char} {s : Session}

theorem receive (h : s.Sound text) {answer : Token × Lexer} (ha : s.lexer.Gives answer) :
    (s.receive answer).Sound text := by
  refine ⟨ha.sound, ha.text.trans h.reads, fun t ht => ?_, h.checkpoints⟩
  obtain ht | rfl := Array.mem_push.mp ht
  · exact h.tokens t ht
  · exact h.reads ▸ ha.token

theorem rescan (h : s.Sound text) {read : Lexer → Token → Token × Lexer} (i : Nat)
    (hr : ∀ t, t.Located s.lexer.text → t.isEnd = false → s.lexer.Gives (read s.lexer t)) :
    (s.rescan read i).Sound text := by
  unfold Session.rescan
  split
  next t ht =>
    split
    next => exact h
    next he =>
      have hl := h.tokens t (Array.mem_of_getElem? ht)
      exact h.receive (hr t (h.reads ▸ hl) (Bool.eq_false_iff.mpr he))
  next => exact h

/-- **The step.** -/
theorem serve (h : s.Sound text) (request : Request) : (s.serve request).Sound text := by
  cases request with
  | nextToken => exact h.receive h.lexer.gives_nextToken
  | rescanRegExp i => exact h.rescan i fun t => Lexer.gives_rescanRegExp h.lexer
  | rescanTemplate i => exact h.rescan i fun t => Lexer.gives_rescanTemplate h.lexer
  | save =>
      refine { h with checkpoints := fun c hc => ?_ }
      obtain hc | rfl := Array.mem_push.mp hc
      · exact h.checkpoints c hc
      · exact h.reads ▸ h.lexer.save
  | restore i =>
      dsimp only [Session.serve]
      split
      next c hc =>
        have hl := h.checkpoints c (Array.mem_of_getElem? hc)
        exact { h with lexer := h.lexer.restore (h.reads ▸ hl) }
      next => exact h
  | takeComments => exact { h with lexer := h.lexer.takeComments }
  | takeDiagnostics => exact { h with lexer := h.lexer.takeDiagnostics }
  | takeFeatures => exact { h with lexer := h.lexer.takeFeatures }

/-- **The run.** -/
theorem serveAll (h : s.Sound text) (requests : List Request) :
    (s.serveAll requests).Sound text := by
  induction requests generalizing s with
  | nil => exact h
  | cons request rest ih => exact ih (h.serve request)

end Sound

/-- A session begins with a lexer over the text, and has given out nothing. -/
theorem sound_ofChars (text : List Char) (strict : Bool) : Sound text { lexer := Lexer.ofChars text strict } where
  lexer := Lexer.sound_ofChars text strict
  reads := Lexer.text_ofChars text strict
  tokens _ h := absurd h (Array.not_mem_empty _)
  checkpoints _ h := absurd h (Array.not_mem_empty _)

/-- **A lexer in use never leaves its text**, whatever is asked of it: it reads no character that is not
there, it stands at the place that the line table gives for its offset, and so does every token it has
given out, which ends within the text. -/
theorem position_serveAll (text : List Char) (strict : Bool) (requests : List Request) :
    let s := serveAll { lexer := Lexer.ofChars text strict } requests
    s.lexer.overrun = false ∧ s.lexer.position.offset ≤ text.length ∧
      s.lexer.position = (LineMap.ofChars text).position s.lexer.position.offset ∧
      ∀ t ∈ s.tokens, t.span.start = (LineMap.ofChars text).position t.span.offset ∧
        t.span.stop ≤ text.length := by
  have h := (sound_ofChars text strict).serveAll requests
  have hp := h.lexer.place
  rw [h.reads] at hp
  exact ⟨h.lexer.overrun, hp.offset_le, hp.symm, fun t ht =>
    ⟨(h.tokens t ht).span.1.symm, (h.tokens t ht).span.2⟩⟩

end Session

end EcmaScript
