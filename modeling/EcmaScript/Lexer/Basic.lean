import EcmaScript.Feature.Basic
import EcmaScript.Token.Basic
import EcmaScript.Token.Identifier

/-!
# The state of the lexer

A `Lexer` holds a text, how far it has been read, and what has been noted on the way: comments,
problems and features. All reading goes through `Lexer.advance`, which keeps line and column. A reader
has to know that there is a character before it reads one, and that a stretch of the text exists before
it cuts it out; `Lexer.overrun` remembers whether one did not.

## Contents

* `Position.after`: the place after one more character.
* `Lexer`, `Lexer.advance`: the state and its only way forward.
* `Lexer.skipWhile`: reading on over a class of characters.
* `Lexer.cutSince`: cutting out what was read.
* `Lexer.Checkpoint`: reading ahead and coming back.
-/

namespace EcmaScript

/-- The place after the character `c`, which `rest` follows. A carriage return before a line feed
leaves the line break to the line feed. -/
def Position.after (p : Position) (c : Char) (rest : List Char) : Position :=
  if isLineTerminator c && !(c == '\r' && rest.head? == some '\n') then
    ⟨p.line + 1, 0, p.offset + 1⟩
  else ⟨p.line, p.column + 1, p.offset + 1⟩

/-- A text that has been read up to `position`. -/
structure Lexer where
  /-- The whole text. -/
  text : List Char
  /-- Whether the text is strict code. -/
  strict : Bool
  /-- What has not been read yet. -/
  rest : List Char
  position : Position
  /-- Whether only blanks and comments were read since the last line break. -/
  atLineStart : Bool
  /-- Comments in the order of the text. -/
  comments : Array Comment
  /-- Problems in the order they were found. -/
  diagnostics : Array LexicalDiagnostic
  /-- Features in the order they were met. -/
  features : Array (Feature × Position)
  /-- Whether something was asked for that is not part of the text. -/
  overrun : Bool := false
  deriving Repr, Inhabited

namespace Lexer

/-! ## Notes -/

def report (s : Lexer) (position : Position) (problem : LexicalProblem) (severity : Severity) :
    Lexer :=
  { s with diagnostics := s.diagnostics.push ⟨position, problem, severity⟩ }

def error (s : Lexer) (position : Position) (problem : LexicalProblem) : Lexer :=
  s.report position problem .error

def warning (s : Lexer) (position : Position) (problem : LexicalProblem) : Lexer :=
  s.report position problem .warning

def record (s : Lexer) (feature : Feature) (position : Position) : Lexer :=
  { s with features := s.features.push (feature, position) }

@[simp] theorem rest_report (s : Lexer) (p : Position) (m : LexicalProblem) (v : Severity) :
    (s.report p m v).rest = s.rest := rfl

@[simp] theorem rest_error (s : Lexer) (p : Position) (m : LexicalProblem) :
    (s.error p m).rest = s.rest := rfl

@[simp] theorem rest_warning (s : Lexer) (p : Position) (m : LexicalProblem) :
    (s.warning p m).rest = s.rest := rfl

@[simp] theorem rest_record (s : Lexer) (f : Feature) (p : Position) :
    (s.record f p).rest = s.rest := rfl

/-! ## Reading -/

/-- Reads one character, which has to be there. -/
def advance (s : Lexer) : Lexer :=
  match s.rest with
  | [] => { s with overrun := true }
  | c :: rest => { s with rest := rest, position := s.position.after c rest }

@[simp] theorem diagnostics_advance (s : Lexer) : s.advance.diagnostics = s.diagnostics := by
  unfold advance
  split <;> rfl

/-- Reads `n` characters. -/
def advanceBy : Nat → Lexer → Lexer
  | 0, s => s
  | n + 1, s => advanceBy n s.advance

/-- The next character. -/
def peek? (s : Lexer) : Option Char := s.rest.head?

/-- Whether the next character satisfies `p`. -/
def nextIs (s : Lexer) (p : Char → Bool) : Bool := s.rest.head?.any p

/-- Whether the text goes on with `word`. -/
def startsWith (s : Lexer) (word : List Char) : Bool := word.isPrefixOf s.rest

theorem length_rest_advance (s : Lexer) : s.advance.rest.length = s.rest.length - 1 := by
  unfold advance
  split <;> simp_all

theorem length_rest_advance_le (s : Lexer) : s.advance.rest.length ≤ s.rest.length := by
  rw [length_rest_advance]
  omega

/-- Reads on while the characters satisfy `p`. -/
def skipWhile (p : Char → Bool) (s : Lexer) : Lexer :=
  match _h : s.rest with
  | [] => s
  | c :: _ => if p c then skipWhile p s.advance else s
termination_by s.rest.length
decreasing_by simp [length_rest_advance, _h]

theorem length_rest_skipWhile_le (p : Char → Bool) (s : Lexer) :
    (s.skipWhile p).rest.length ≤ s.rest.length := by
  fun_induction skipWhile p s with
  | case1 => simp
  | case2 s c _ _ _ ih => exact Nat.le_trans ih s.length_rest_advance_le
  | case3 => simp

/-- Reads one line break, a carriage return and a line feed together. -/
def skipLineBreak (s : Lexer) : Lexer :=
  match s.rest with
  | '\r' :: '\n' :: _ => s.advance.advance
  | _ => s.advance

theorem length_rest_skipLineBreak_le (s : Lexer) :
    s.skipLineBreak.rest.length ≤ s.rest.length := by
  unfold skipLineBreak
  split <;> simp only [length_rest_advance] <;> omega

@[simp] theorem diagnostics_skipLineBreak (s : Lexer) : s.skipLineBreak.diagnostics = s.diagnostics := by
  unfold skipLineBreak
  split <;> simp

/-- The text from `start` to the present place. -/
def textSince (s : Lexer) (start : Position) : List Char :=
  (s.text.drop start.offset).take (s.position.offset - start.offset)

/-- Whether there is a text from `start` to the present place. -/
def covers (s : Lexer) (start : Position) : Bool :=
  start.offset ≤ s.position.offset && s.position.offset ≤ s.text.length

/-- Cuts out the text from `start` to the present place, which has to be there. -/
def cutSince (s : Lexer) (start : Position) : List Char × Lexer :=
  (s.textSince start, if s.covers start then s else { s with overrun := true })

@[simp] theorem rest_cutSince (s : Lexer) (p : Position) : (s.cutSince p).2.rest = s.rest := by
  unfold cutSince
  dsimp only
  split <;> rfl

/-! ## Checkpoints -/

/-- What is needed to come back to a state of the lexer. -/
structure Checkpoint where
  rest : List Char
  position : Position
  atLineStart : Bool
  comments : Nat
  diagnostics : Nat
  features : Nat
  deriving Repr, Inhabited

/-- Remembers the present state. -/
def save (s : Lexer) : Checkpoint :=
  ⟨s.rest, s.position, s.atLineStart, s.comments.size, s.diagnostics.size, s.features.size⟩

/-- Comes back to a remembered state and forgets what was noted since. -/
def restore (s : Lexer) (c : Checkpoint) : Lexer :=
  { s with
    rest := c.rest
    position := c.position
    atLineStart := c.atLineStart
    comments := s.comments.take c.comments
    diagnostics := s.diagnostics.take c.diagnostics
    features := s.features.take c.features }

/-- Goes back to an earlier place of the text and keeps all notes. -/
def rewind (s : Lexer) (position : Position) : Lexer :=
  { s with rest := s.text.drop position.offset, position := position }

/-- Hands over the comments. -/
def takeComments (s : Lexer) : Array Comment × Lexer := (s.comments, { s with comments := #[] })

/-- Hands over the problems. -/
def takeDiagnostics (s : Lexer) : Array LexicalDiagnostic × Lexer :=
  (s.diagnostics, { s with diagnostics := #[] })

/-- Hands over the features. -/
def takeFeatures (s : Lexer) : Array (Feature × Position) × Lexer :=
  (s.features, { s with features := #[] })

end Lexer

end EcmaScript
