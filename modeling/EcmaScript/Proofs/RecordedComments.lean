import EcmaScript.Proofs.Doc.CommentText
import EcmaScript.Proofs.Grammar.Interleaving
import EcmaScript.Proofs.LexerSession
import EcmaScript.Proofs.LineBreaks

/-!
# Comments as they are recorded

A lexer records a comment when it has come to its end. The end decides what can be said of the text: a comment
up to the end of its line holds no line terminator at all, and one between delimiters ends with a slash. In both
cases the last line break of the text is over (`Comment.Whole`), so that counting the lines of the text alone
agrees with the source.

Nothing is recorded anywhere else. `Lexer.Tidy` says that all recorded comments are whole, for a sound lexer; it
is kept by every request of a session, those that come back to an earlier state among them.

## Contents

* `Comment.Whole`, `Lexer.Tidy`: what is recorded, with one lemma for each reader that can record.
* `Session.Tidy.serveAll`: a lexer in use.
* `Session.comments_agree`: lines and places that are counted from a recorded comment.
-/

namespace EcmaScript

/-- The comment does not end within a line break, and a documentation comment has its delimiters. -/
structure Comment.Whole (c : Comment) : Prop where
  last : c.text.toList.getLast? ≠ some '\r'
  delimited : c.kind = .doc → ∃ body, c.text.toList = ['/', '*', '*'] ++ body ++ ['*', '/']

namespace Lexer

/-- A sound lexer that has recorded whole comments only. -/
structure Tidy (s : Lexer) : Prop where
  sound : s.Sound
  whole : ∀ c ∈ s.comments, c.Whole

/-! ## Recording a comment -/

theorem comments_pushComment (s : Lexer) (k : CommentKind) (p : Position) :
    (s.pushComment k p).comments = s.comments.push (s.commentSince k p) := by
  unfold pushComment cutSince
  dsimp only
  split <;> rfl

/-- What was read since a place is what was passed over. -/
theorem Passes.textSince_eq {xs : List Char} {s t : Lexer} (h : Passes xs s t)
    (hs : s.rest = s.text.drop s.position.offset) (ht : t.text = s.text) : t.textSince s.position = xs := by
  unfold textSince
  rw [ht]
  exact h.slice_between hs

/-- A comment on one line. -/
theorem whole_of_line {xs : List Char} {k : CommentKind} (hxs : xs.any isLineTerminator = false) (hk : k ≠ .doc)
    (span : Span) : Comment.Whole ⟨k, String.ofList xs, span⟩ := by
  refine ⟨?_, fun hdoc => absurd hdoc hk⟩
  intro hlast
  rw [String.toList_ofList] at hlast
  have hnone := List.any_eq_false.mp hxs '\r' (List.mem_of_getLast? hlast)
  exact hnone rfl

theorem eq_star_of_blockKind {c : Char} {rest : List Char} (h : blockKind ('/' :: '*' :: c :: rest) = .doc) :
    c = '*' := by
  unfold blockKind at h
  split at h
  next => cases h
  next =>
    split at h
    next heq =>
      cases heq
      rfl
    next => cases h
    next => cases h

/-- A comment between delimiters. It documents something if it is opened by a second star that does not close
it. -/
theorem whole_of_block (xs : List Char) (span : Span) :
    Comment.Whole ⟨blockKind ('/' :: '*' :: (xs ++ ['*', '/'])), String.ofList ('/' :: '*' :: (xs ++ ['*', '/'])),
      span⟩ := by
  refine ⟨?_, fun hdoc => ?_⟩
  · rw [String.toList_ofList]
    simp [List.getLast?_cons]
  · rw [String.toList_ofList]
    cases xs with
    | nil => cases hdoc
    | cons c body =>
        obtain rfl : c = '*' := eq_star_of_blockKind hdoc
        exact ⟨body, rfl⟩

namespace Tidy

variable {s t : Lexer} {c : Char} {rest : List Char}

theorem of_reads {breaks : Bool} (h : s.Tidy) (hr : Reads breaks s t) : t.Tidy :=
  ⟨hr.sound, hr.comments ▸ h.whole⟩

/-- One more whole comment. -/
theorem whole_pushComment (h : s.Tidy) {k : CommentKind} {p : Position} (hw : (s.commentSince k p).Whole) :
    ∀ c ∈ (s.pushComment k p).comments, c.Whole := by
  intro c hc
  rw [comments_pushComment] at hc
  rcases Array.mem_push.mp hc with hc | rfl
  · exact h.whole c hc
  · exact hw

theorem lineComment (h : s.Tidy) (hc : s.rest = c :: rest) (hl : isLineTerminator c = false) {k : CommentKind}
    (hk : k ≠ .doc) : (s.lineComment k).Tidy := by
  obtain ⟨x, htiled⟩ := tiled_lineComment h.sound hc k
  obtain ⟨xs, hpasses, hflat⟩ := Skips.line hc hl
  have hread : Reads true s s.advance.skipLine :=
    have hnext := (Reads.start h.sound).next hc
    hnext.trans ((Reads.start hnext.sound).skipAll fun c => !isLineTerminator c)
  refine ⟨htiled.sound, (h.of_reads hread).whole_pushComment ?_⟩
  unfold commentSince
  rw [hpasses.textSince_eq h.sound.rest hread.text]
  exact whole_of_line hflat hk _

/-- A block comment is recorded where it ends; without an end there is only a report. -/
theorem blockComment (h : s.Tidy) (hc : s.rest = '/' :: '*' :: rest) : s.blockComment.2.Tidy := by
  obtain ⟨x, -, htiled⟩ := tiled_blockComment h.sound ⟨rest, hc⟩
  refine ⟨htiled.sound, ?_⟩
  have hopen := (Passes.advance hc).trans (.advance (rest_advance hc))
  obtain ⟨xs, b, hbody, -⟩ := Skips.blockBody s.advance.advance false
  have hread : Reads true s (s.advance.advance.skipBlockBody false).2 :=
    have hnext := (Reads.start h.sound).next hc
    (hnext.next (rest_advance hc)).skipBlockBody false
  have hspec := s.advance.advance.skipBlockBody_spec false
  unfold Lexer.blockComment
  split
  next newline body heq =>
    rw [heq] at hbody hread hspec
    split
    next => exact (h.of_reads hread).whole
    next hne =>
      rcases hspec with ⟨hend, -⟩ | ⟨tail, htail⟩
      · exact absurd hend hne
      · have hdone := (hread.next htail).next (rest_advance htail)
        have hpasses := ((hopen.trans hbody.passes).trans (.advance htail)).trans (.advance (rest_advance htail))
        have htext := hpasses.textSince_eq h.sound.rest hdone.text
        have hshape : ['/'] ++ ['*'] ++ xs ++ ['*'] ++ ['/'] = '/' :: '*' :: (xs ++ ['*', '/']) := by simp
        refine (h.of_reads hdone).whole_pushComment ?_
        unfold commentSince
        rw [htext, hshape]
        exact whole_of_block xs _

/-- **Blanks and comments.** -/
theorem skipTrivia (h : s.Tidy) (newline : Bool) : (s.skipTrivia newline).2.Tidy := by
  fun_induction Lexer.skipTrivia s newline with
  | case1 => exact h
  | case2 s newline c rest hc hl ih =>
      have hs := h.of_reads ((Reads.start h.sound).next hc)
      exact ih ⟨{ hs.sound with }, hs.whole⟩
  | case3 s newline c rest hc hl hb ih => exact ih (h.of_reads ((Reads.start h.sound).next hc))
  | case4 s newline c rest hc hl hb hline ih =>
      exact ih (h.lineComment hc (Bool.eq_false_iff.mpr hl) (by decide))
  | case5 s newline c rest hc hl hb hline hblock hbreaks ih =>
      obtain ⟨tail, hs⟩ := rest_of_slashStar hc hblock
      have ht := h.blockComment hs
      exact ih ⟨{ ht.sound with }, ht.whole⟩
  | case6 s newline c rest hc hl hb hline hblock hbreaks ih =>
      obtain ⟨tail, hs⟩ := rest_of_slashStar hc hblock
      exact ih (h.blockComment hs)
  | case7 s newline c rest hc hl hb hline hblock hmark ih =>
      have hw : (s.warning s.position .htmlComment).Tidy := ⟨((Tiled.refl h.sound).warning _).sound, h.whole⟩
      exact ih (hw.lineComment hc (Bool.eq_false_iff.mpr hl) (by decide))
  | case8 => exact h

end Tidy

theorem comments_advance (s : Lexer) : s.advance.comments = s.comments := by
  unfold advance
  split <;> rfl

theorem comments_skipWhile (p : Char → Bool) (s : Lexer) : (s.skipWhile p).comments = s.comments := by
  fun_induction Lexer.skipWhile p s with
  | case1 => rfl
  | case2 s c rest hs hp ih => rw [ih, comments_advance]
  | case3 => rfl

/-- A fault is no comment. -/
theorem comments_skipFault? {s t : Lexer} (h : s.skipFault? = some t) : t.comments = s.comments := by
  unfold skipFault? at h
  split at h
  next => cases h
  next =>
    split at h
    next =>
      cases h
      exact (comments_skipWhile _ _).trans (comments_advance _)
    next =>
      split at h
      next => cases h
      next =>
        cases h
        exact comments_advance _
    next =>
      cases h
      exact comments_advance _
  next =>
    split at h
    next => cases h
    next =>
      cases h
      exact comments_advance _

/-- **The step**: what is recorded on the way to a token. -/
theorem Tidy.nextTokenFrom {s : Lexer} (h : s.Tidy) (newline : Bool) : (s.nextTokenFrom newline).2.Tidy := by
  -- behind a fault the search goes on with less of the text left
  induction hn : s.rest.length using Nat.strongRecOn generalizing s newline with
  | ind n ih =>
      have hs := h.skipTrivia newline
      have hl := s.length_rest_skipTrivia_le newline
      rw [Lexer.nextTokenFrom]
      split
      next broken t ht =>
        rw [ht] at hs hl
        split
        next u hu =>
          have hlt := Nat.lt_of_lt_of_le (length_rest_skipFault?_lt hu) hl
          have hgap := gap_skipFault hs.sound hu
          exact ih _ (hn ▸ hlt) ⟨hgap.sound, comments_skipFault? hu ▸ hs.whole⟩ broken rfl
        next hf =>
          split
          next => exact hs
          next c rest hr =>
            have ht' : Tidy { t with atLineStart := false } := ⟨{ hs.sound with }, hs.whole⟩
            have hscan := Scans.scan ht'.sound hr (isLineTerminator_of_skipFault hr hf)
            split
            next kind escaped u heq =>
              rw [heq] at hscan
              exact ht'.of_reads hscan.reads

/-- A text begins with an interpreter line, if with any comment that is recorded at once. -/
theorem tidy_ofChars (text : List Char) (strict : Bool) : (ofChars text strict).Tidy := by
  have hstart : (atStart text strict).Tidy := ⟨sound_atStart text strict, nofun⟩
  rw [ofChars_eq]
  split
  next h =>
    obtain ⟨rest, hr⟩ := List.isPrefixOf_iff_prefix.mp h
    exact hstart.lineComment hr.symm rfl (by decide)
  next => exact hstart

end Lexer

/-! ## A lexer in use -/

namespace Session

/-- The session has stayed in its text, and its lexer has recorded whole comments only. -/
structure Tidy (text : List Char) (s : Session) : Prop where
  sound : s.Sound text
  whole : ∀ c ∈ s.lexer.comments, c.Whole

namespace Tidy

variable {text : List Char} {s : Session}

/-- Reading a token again records no comment. -/
theorem rescan (h : s.Tidy text) {read : Lexer → Token → Token × Lexer} (i : Nat)
    (hread : ∀ t, t.Located s.lexer.text → t.isEnd = false → (read s.lexer t).2.comments = s.lexer.comments) :
    ∀ c ∈ (s.rescan read i).lexer.comments, c.Whole := by
  unfold Session.rescan
  split
  next t ht =>
    split
    next => exact h.whole
    next he =>
      have hlocated := h.sound.tokens t (Array.mem_of_getElem? ht)
      have hsame := hread t (h.sound.reads ▸ hlocated) (Bool.eq_false_iff.mpr he)
      exact fun c hc => h.whole c (hsame ▸ hc)
  next => exact h.whole

/-- **The step.** -/
theorem serve (h : s.Tidy text) (request : Request) : (s.serve request).Tidy text := by
  refine ⟨h.sound.serve request, ?_⟩
  cases request with
  | nextToken => exact (Lexer.Tidy.nextTokenFrom ⟨h.sound.lexer, h.whole⟩ false).whole
  | rescanRegExp i => exact h.rescan i fun t => Lexer.comments_rescanRegExp h.sound.lexer
  | rescanTemplate i => exact h.rescan i fun t => Lexer.comments_rescanTemplate h.sound.lexer
  | save => exact h.whole
  | restore i =>
      dsimp only [Session.serve]
      split
      next checkpoint hc =>
        intro c hc
        exact h.whole c (Lexer.mem_of_mem_take hc)
      next => exact h.whole
  | takeComments => exact nofun
  | takeDiagnostics => exact h.whole
  | takeFeatures => exact h.whole

/-- **The run.** -/
theorem serveAll (h : s.Tidy text) (requests : List Request) : (s.serveAll requests).Tidy text := by
  induction requests generalizing s with
  | nil => exact h
  | cons request rest ih => exact ih (h.serve request)

end Tidy

/-- **Lines and places that are counted from a comment agree with the source.** Whatever is asked of a lexer, a
comment that it has recorded ends on the line that is counted from its text, and that is the line of its end in
the source. The text of a documentation comment is what stands between its delimiters, in order and with the
offsets of the source, with a line feed for every line break and without what is left out: the carriage return
of a pair, and behind a line break spaces, tabs and a star. Every other character that is kept has the place that
the source has for its offset. -/
theorem comments_agree (text : List Char) (strict : Bool) (requests : List Request) :
    let lexer := (serveAll { lexer := Lexer.ofChars text strict } requests).lexer
    let table := LineMap.ofChars text
    ∀ c ∈ lexer.comments,
      c.lastLine = Comment.countLines c.span.line c.text.toList ∧
        c.lastLine = (table.position c.span.stop).line ∧
        (c.kind = .doc → ∃ body,
          c.text.toList = ['/', '*', '*'] ++ body ++ ['*', '/'] ∧ c.span.slice text = c.text.toList ∧
            let read := (Doc.Region.ofComment c.text c.span.start).chars
            (∀ x ∈ read, x.1 ≠ '\n' → x.2 = table.position x.2.offset) ∧
              read.map (Prod.map id Position.offset) =
                (body.zipIdx.filter (!Doc.Region.leftOut body ·.2)).map fun x =>
                  (Doc.Region.asRead x.1, c.span.offset + 3 + x.2)) := by
  intro lexer table c hc
  have hstart : Tidy text { lexer := Lexer.ofChars text strict } :=
    ⟨sound_ofChars text strict, (Lexer.tidy_ofChars text strict).whole⟩
  have hrun := hstart.serveAll requests
  have hwhole : c.Whole := hrun.whole c hc
  have hlocated : c.Located text := hrun.sound.reads ▸ hrun.sound.lexer.comments c hc
  obtain ⟨hcount, hstop⟩ := Comment.lastLine_eq hlocated hwhole.last
  refine ⟨hcount, hstop, fun hdoc => ?_⟩
  obtain ⟨body, hbody⟩ := hwhole.delimited hdoc
  refine ⟨body, hbody, ?_, ?_, ?_⟩
  · rw [hlocated.verbatim, String.toList_ofList]
  · intro x hx hfeed
    exact (Doc.Region.located_ofComment hlocated hwhole.last x hx hfeed).symm
  · exact Doc.Region.map_chars_ofComment c.span.start hbody

end Session

end EcmaScript
