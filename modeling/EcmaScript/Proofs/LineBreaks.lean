import EcmaScript.Proofs.Segments
import Mathlib.Data.List.TakeWhile

/-!
# Line breaks before tokens

A token says whether a line break stands between it and the token before it. The lexer collects that answer
while it skips: blanks, comments and faults follow each other in any order, a block comment gives an answer of
its own, and behind a fault the search for a token starts again. `Skips read newline s t` says of one such piece
that the lexer came over the characters `read` and that `newline` is whether there is a line break among them;
it composes by appending the characters and joining the answers.

## Contents

* `Lexer.Skips`: a piece that was skipped, with one lemma for each kind of piece.
* `Lexer.tellsBreaks_nextTokenFrom`: what a token tells of the characters that were skipped before it.
* `Lexer.newlineBefore_iff`: every token of a text.
-/

namespace EcmaScript

namespace Lexer

/-! ## What is skipped -/

/-- The lexer came from `s` to `t` over the characters `read`, and `newline` says whether one of them ends a
line. -/
structure Skips (read : List Char) (newline : Bool) (s t : Lexer) : Prop where
  passes : Passes read s t
  breaks : read.any isLineTerminator = newline

/-- Asked whether `newline` holds or a line ends, the lexer came from `s` to the state of the answer. -/
def Answers (s : Lexer) (newline : Bool) (answer : Bool × Lexer) : Prop :=
  ∃ read b, Skips read b s answer.2 ∧ answer.1 = (newline || b)

namespace Skips

variable {xs ys : List Char} {a b newline : Bool} {r s t : Lexer} {answer : Bool × Lexer} {c : Char}
  {rest : List Char}

theorem refl (s : Lexer) : Skips [] false s s := ⟨.refl s, rfl⟩

theorem trans (h : Skips xs a r s) (h' : Skips ys b s t) : Skips (xs ++ ys) (a || b) r t :=
  ⟨h.passes.trans h'.passes, by rw [List.any_append, h.breaks, h'.breaks]⟩

/-- The notes and the place in the line do not matter. -/
theorem congr (h : Skips xs a r s) (hr : t.rest = s.rest) (hp : t.position = s.position) : Skips xs a r t :=
  ⟨h.passes.congr hr hp, h.breaks⟩

theorem char (h : s.rest = c :: rest) : Skips [c] (isLineTerminator c) s s.advance :=
  ⟨.advance h, by simp⟩

/-- One piece in front of an answer. -/
theorem answers (h : Skips xs a r s) (h' : Answers s b answer) (hb : (newline || a) = b) :
    Answers r newline answer := by
  obtain ⟨ys, last, hy, hlast⟩ := h'
  exact ⟨_, _, h.trans hy, by rw [hlast, ← hb, Bool.or_assoc]⟩

/-- Where nothing is skipped the answer is the one so far. -/
theorem stay (s : Lexer) (newline : Bool) : Answers s newline (newline, s) :=
  ⟨[], false, refl s, (Bool.or_false _).symm⟩

/-- A line is read up to its end. -/
theorem line (h : s.rest = c :: rest) (hc : isLineTerminator c = false) :
    ∃ xs, Skips xs false s s.advance.skipLine := by
  have hline : Skips (s.advance.rest.takeWhile (!isLineTerminator ·)) false s.advance s.advance.skipLine := by
    refine ⟨.skipWhile _ _, List.any_eq_false.mpr fun d hd => ?_⟩
    simpa using List.mem_takeWhile_imp hd
  exact ⟨_, hc ▸ (char h).trans hline⟩

theorem lineComment (h : s.rest = c :: rest) (hc : isLineTerminator c = false) (k : CommentKind) :
    ∃ xs, Skips xs false s (s.lineComment k) := by
  obtain ⟨xs, hx⟩ := line h hc
  exact ⟨xs, hx.passes.pushComment k _, hx.breaks⟩

theorem blockBody (s : Lexer) (newline : Bool) : Answers s newline (s.skipBlockBody newline) := by
  fun_induction Lexer.skipBlockBody s newline with
  | case1 s newline => exact stay s newline
  | case2 s newline => exact stay s newline
  | case3 s newline c rest hc _ ih => exact (char hc).answers ih rfl

/-- A block comment says whether there is a line break in it, and so does one without an end. -/
theorem blockComment (h : s.rest = '/' :: '*' :: rest) :
    ∃ xs, Skips xs s.blockComment.1 s s.blockComment.2 := by
  have hopen := (char h).trans (char (rest_advance h))
  obtain ⟨xs, b, hx, hb⟩ := blockBody s.advance.advance false
  have hspec := s.advance.advance.skipBlockBody_spec false
  unfold Lexer.blockComment
  split
  next newline body heq =>
    rw [heq] at hx hb hspec
    have hbody := hopen.trans hx
    obtain rfl : newline = b := hb
    split
    next => exact ⟨_, hbody.congr rfl rfl⟩
    next hne =>
      obtain ⟨hend, -⟩ | ⟨tail, htail⟩ := hspec
      · exact absurd hend hne
      · have hclose := (hbody.trans (char htail)).trans (char (rest_advance htail))
        exact ⟨_, hclose.passes.pushComment _ _, hclose.breaks.trans (by simp [isLineTerminator])⟩

/-- **Blanks and comments** before a token, with the answer so far. -/
theorem trivia (s : Lexer) (newline : Bool) : Answers s newline (s.skipTrivia newline) := by
  fun_induction Lexer.skipTrivia s newline with
  | case1 s newline => exact stay s newline
  | case2 s newline c rest hc hl ih =>
      have hx := (char hc).congr (t := { s.advance with atLineStart := true }) rfl rfl
      exact hx.answers ih (by rw [hl, Bool.or_true])
  | case3 s newline c rest hc hl _ ih =>
      exact (char hc).answers ih (by rw [Bool.eq_false_iff.mpr hl, Bool.or_false])
  | case4 s newline c rest hc hl _ _ ih =>
      obtain ⟨xs, hx⟩ := lineComment hc (Bool.eq_false_iff.mpr hl) .line
      exact hx.answers ih (Bool.or_false _)
  | case5 s newline c rest hc _ _ _ hb hbreaks ih =>
      obtain ⟨tail, hs⟩ := rest_of_slashStar hc hb
      obtain ⟨xs, hx⟩ := blockComment hs
      have hx := hx.congr (t := { s.blockComment.2 with atLineStart := true }) rfl rfl
      exact hx.answers ih (by rw [hbreaks, Bool.or_true])
  | case6 s newline c rest hc _ _ _ hb hbreaks ih =>
      obtain ⟨tail, hs⟩ := rest_of_slashStar hc hb
      obtain ⟨xs, hx⟩ := blockComment hs
      exact hx.answers ih (by rw [Bool.eq_false_iff.mpr hbreaks, Bool.or_false])
  | case7 s newline c rest hc hl _ _ _ _ ih =>
      have hwarned := (refl s).congr (t := s.warning s.position .htmlComment) rfl rfl
      obtain ⟨xs, hx⟩ := lineComment (s := s.warning s.position .htmlComment) hc (Bool.eq_false_iff.mpr hl) .html
      exact (hwarned.trans hx).answers ih (Bool.or_false _)
  | case8 s newline => exact stay s newline

/-- **A fault** that does not start with a line break holds none. -/
theorem fault (h : s.skipFault? = some t) (hc : ∀ c ∈ s.rest.head?, isLineTerminator c = false) :
    ∃ xs, Skips xs false s t := by
  have hnoted (m : LexicalProblem) := (refl s).congr (t := s.error s.position m) rfl rfl
  have hchar {c : Char} {rest : List Char} (hs : s.rest = c :: rest) (m : LexicalProblem) :
      ∃ xs, Skips xs false s { (s.error s.position m).advance with atLineStart := false } := by
    have hx := (hnoted m).trans (char (s := s.error s.position m) hs)
    rw [hc c (by rw [hs]; rfl)] at hx
    exact ⟨_, hx.congr (t := { (s.error s.position m).advance with atLineStart := false }) rfl rfl⟩
  unfold Lexer.skipFault? at h
  split at h
  next => cases h
  next rest hs =>
    split at h
    next =>
      cases h
      obtain ⟨xs, hx⟩ := line (s := s.error s.position .misplacedShebang) hs rfl
      exact ⟨_, ((hnoted .misplacedShebang).trans hx).congr rfl rfl⟩
    next =>
      split at h
      next => cases h
      next =>
        cases h
        exact hchar hs .strayHash
    next =>
      cases h
      exact hchar hs .strayHash
  next c rest _ hs =>
    split at h
    next => cases h
    next =>
      cases h
      exact hchar hs (.badStart c)

end Skips

/-- Behind blanks and comments no line ends. -/
theorem isLineTerminator_of_skipTrivia (s : Lexer) (newline : Bool) :
    ∀ c ∈ (s.skipTrivia newline).2.rest.head?, isLineTerminator c = false := by
  fun_induction Lexer.skipTrivia s newline with
  | case1 s newline hs => exact hs ▸ fun c hc => (Option.not_mem_none c hc).elim
  | case8 s newline c rest hs hl =>
      rw [hs]
      rintro d ⟨⟩
      exact Bool.eq_false_iff.mpr hl
  | _ => assumption

/-! ## Tokens -/

/-- The token of the answer starts behind the skipped characters, and it says whether `newline` holds or there
is a line break among them. -/
def TellsBreaks (s : Lexer) (newline : Bool) (token : Token) : Prop :=
  ∃ gap rest, s.rest = gap ++ rest ∧ token.span.offset = s.position.offset + gap.length ∧
    token.newlineBefore = (newline || gap.any isLineTerminator)

/-- One piece in front of what a token tells. -/
theorem Skips.tells {xs : List Char} {a newline b : Bool} {r s : Lexer} {token : Token} (h : Skips xs a r s)
    (h' : TellsBreaks s b token) (hb : (newline || a) = b) : TellsBreaks r newline token := by
  obtain ⟨gap, rest, hrest, ho, ht⟩ := h'
  refine ⟨xs ++ gap, rest, by rw [h.passes.rest, hrest, List.append_assoc], ?_, ?_⟩
  · rw [ho, h.passes.offset, List.length_append, Nat.add_assoc]
  · rw [ht, List.any_append, h.breaks, ← hb, Bool.or_assoc]

/-- **The step**: whatever is skipped before a token, its flag is about exactly that. -/
theorem tellsBreaks_nextTokenFrom (s : Lexer) (newline : Bool) :
    TellsBreaks s newline (s.nextTokenFrom newline).1 := by
  -- behind a fault the search goes on with less of the text left
  induction hn : s.rest.length using Nat.strongRecOn generalizing s newline with
  | ind n ih =>
      have hs := Skips.trivia s newline
      have hl := s.length_rest_skipTrivia_le newline
      have hc := isLineTerminator_of_skipTrivia s newline
      have hhere (t : Lexer) (broken : Bool) (token : Token) (ho : token.span.offset = t.position.offset)
          (hb : token.newlineBefore = broken) : TellsBreaks t broken token :=
        ⟨[], t.rest, rfl, ho, by rw [hb, List.any_nil, Bool.or_false]⟩
      rw [nextTokenFrom]
      split
      next broken t ht =>
        rw [ht] at hs hl hc
        obtain ⟨xs, b, hx, hb⟩ := hs
        split
        next u hu =>
          have hlt := Nat.lt_of_lt_of_le (length_rest_skipFault?_lt hu) hl
          obtain ⟨ys, hy⟩ := Skips.fault hu hc
          exact (hx.trans hy).tells (ih _ (hn ▸ hlt) u broken rfl) (by rw [Bool.or_false]; exact hb.symm)
        next =>
          split
          next => exact hx.tells (hhere t broken _ rfl rfl) hb.symm
          next c rest _ => exact hx.tells (hhere t broken _ rfl rfl) hb.symm

/-- The token that comes after `n` others. -/
def nthToken (s : Lexer) (n : Nat) : Token := (s.afterTokens n).nextToken.1

/-- Where the token before the one with the number `n` ends; the first token has the start of the text before
it. -/
def endBefore (s : Lexer) : Nat → Nat
  | 0 => 0
  | n + 1 => (s.nthToken n).span.stop

theorem afterTokens_succ (s : Lexer) (n : Nat) : s.afterTokens (n + 1) = (s.afterTokens n).nextToken.2 := by
  induction n generalizing s with
  | zero => rfl
  | succ n ih => exact ih s.nextToken.2

/-- A run stays in its text. -/
theorem Sound.afterTokens {s : Lexer} (h : s.Sound) (n : Nat) :
    (s.afterTokens n).Sound ∧ (s.afterTokens n).text = s.text := by
  induction n generalizing s with
  | zero => exact ⟨h, rfl⟩
  | succ n ih =>
      have hg := h.gives_nextToken
      exact (ih hg.sound).imp_right (·.trans hg.text)

/-- An interpreter line does not reach over the end of its line. -/
theorem skips_ofChars (text : List Char) (strict : Bool) :
    ∃ xs, Skips xs false (atStart text strict) (ofChars text strict) := by
  rw [ofChars_eq]
  split
  next h =>
    obtain ⟨rest, hr⟩ := List.isPrefixOf_iff_prefix.mp h
    exact Skips.lineComment hr.symm rfl .shebang
  next => exact ⟨_, .refl _⟩

/-- What a token tells is about the text from a place on. -/
theorem TellsBreaks.eq_any {s : Lexer} {token : Token} (h : TellsBreaks s false token) (hs : s.Sound) :
    s.position.offset ≤ token.span.offset ∧
      token.newlineBefore = ((s.text.drop s.position.offset).take
        (token.span.offset - s.position.offset)).any isLineTerminator := by
  obtain ⟨gap, rest, hrest, ho, ht⟩ := h
  refine ⟨ho ▸ Nat.le_add_right _ _, ?_⟩
  rw [ht, ← hs.rest, hrest, ho, Nat.add_sub_cancel_left, List.take_left, Bool.false_or]

/-- **The run**: each token tells of the text between the token before it and itself. -/
theorem newlineBefore_nthToken (text : List Char) (strict : Bool) (n : Nat) :
    let s := ofChars text strict
    s.endBefore n ≤ (s.nthToken n).span.offset ∧
      (s.nthToken n).newlineBefore = ((text.drop (s.endBefore n)).take
        ((s.nthToken n).span.offset - s.endBefore n)).any isLineTerminator := by
  cases n with
  | zero =>
      obtain ⟨xs, hx⟩ := skips_ofChars text strict
      exact (hx.tells (tellsBreaks_nextTokenFrom _ false) rfl).eq_any (sound_atStart text strict)
  | succ n =>
      obtain ⟨hs, htext⟩ := (sound_ofChars text strict).afterTokens n
      obtain ⟨_, ha⟩ := exists_advances_nextTokenFrom hs false
      have htold := (tellsBreaks_nextTokenFrom _ false).eq_any ha.tiled.sound
      have hstop : (ofChars text strict).endBefore (n + 1) =
        ((ofChars text strict).afterTokens n).nextToken.2.position.offset := ha.stop
      rw [ha.gives.text, htext, text_ofChars] at htold
      dsimp only [nthToken]
      rw [hstop, afterTokens_succ]
      exact htold

/-- **A token says that a line break stands before it exactly where one stands there.** Whether the line break
lies between blanks, within a block comment, with or without an end, behind a comment that ends with its line or
next to what was skipped with an error, the flag of every token of a text, the end of the text among them, is
about the characters between the token before it and itself. -/
theorem newlineBefore_iff (text : List Char) (strict : Bool) (n : Nat) :
    let s := ofChars text strict
    s.endBefore n ≤ (s.nthToken n).span.offset ∧
      ((s.nthToken n).newlineBefore = true ↔
        ∃ c ∈ (text.drop (s.endBefore n)).take ((s.nthToken n).span.offset - s.endBefore n),
          c = '\n' ∨ c = '\r' ∨ c = '\u2028' ∨ c = '\u2029') := by
  obtain ⟨hle, hflag⟩ := newlineBefore_nthToken text strict n
  refine ⟨hle, ?_⟩
  rw [hflag, List.any_eq_true]
  exact exists_congr fun c => and_congr_right fun _ => by simp [isLineTerminator, or_assoc]

end Lexer

end EcmaScript
