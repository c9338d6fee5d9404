import EcmaScript.Proofs.Grammar.Cursor

/-!
# Comments lie between the tokens

The lexer notes a comment on its way from one token to the next. So all comments that have been noted end
before the cursor (`State.Noted`), and none of them overlaps a token that was read (`Reads.clear`), also
where a token was read again as the start of something longer.
-/

namespace EcmaScript

/-- The comment ends before the token, or the token before the comment. -/
def Comment.Clear (c : Comment) (token : Token) : Prop :=
  c.span.stop ≤ token.span.offset ∨ token.span.stop ≤ c.span.offset

/-- Comments one behind the other, none of them empty. -/
structure Comment.Ascending (comments : List Comment) : Prop where
  apart : comments.Pairwise fun c d => c.span.stop ≤ d.span.offset
  long : ∀ c ∈ comments, 0 < c.span.length

namespace Lexer

variable {s : Lexer} {segments : List Segment} {answer : Token × Lexer}

/-- The comments that are noted on a way come behind those that were noted before. -/
theorem Tiled.ascending {t : Lexer} (h : Tiled segments s t)
    (hbefore : ∀ c ∈ s.comments.toList, c.span.stop ≤ s.position.offset)
    (hs : Comment.Ascending s.comments.toList) : Comment.Ascending t.comments.toList := by
  have hmem {c : Comment} (hc : c ∈ segments.filterMap Segment.comment?) : .comment c ∈ segments := by
    obtain ⟨x, hx, hxc⟩ := List.mem_filterMap.mp hc
    obtain rfl : x = .comment c := by cases x <;> cases hxc; rfl
    exact hx
  rw [h.comments]
  refine ⟨List.pairwise_append.mpr ⟨hs.apart, ?_, fun c hc d hd => ?_⟩, fun c hc => ?_⟩
  · refine h.tiles.pairwise.filterMap _ fun x y hxy c hc d hd => ?_
    cases x <;> cases hc
    cases y <;> cases hd
    exact hxy.2
  · exact Nat.le_trans (hbefore c hc) (h.tiles.bounds_of_mem (hmem hd)).1
  · exact (List.mem_append.mp hc).elim (hs.long c) fun hc => (h.tiles.bounds_of_mem (hmem hc)).2.1

/-- **What is noted on the way to a token** lies behind the place where the lexer was, and before the
token. -/
theorem Advances.comments (h : Advances s segments answer) {c : Comment}
    (hc : c ∈ answer.2.comments.toList) :
    c ∈ s.comments.toList ∨
      s.position.offset ≤ c.span.offset ∧ c.span.stop ≤ answer.1.span.offset := by
  rw [h.tiled.comments] at hc
  refine (List.mem_append.mp hc).imp_right fun hnew => ?_
  obtain ⟨x, hx, hxc⟩ := List.mem_filterMap.mp hnew
  obtain rfl : x = .comment c := by cases x <;> cases hxc; rfl
  obtain ⟨hle, hpos, hstop⟩ := h.tiled.tiles.bounds_of_mem hx
  refine ⟨hle, ?_⟩
  have hend := h.stop
  cases he : answer.1.isEnd with
  | true =>
      have hlen := (h.finished he).2
      unfold Span.stop at hend
      rw [hlen] at hend
      exact Nat.le_trans hstop (Nat.le_of_eq hend.symm)
  | false =>
      -- the token is one of the segments too, and nothing lies behind it
      have ht := h.tokens
      rw [he, if_neg Bool.false_ne_true] at ht
      obtain ⟨y, hy, hyt⟩ := List.mem_filterMap.mp (ht ▸ List.mem_singleton_self answer.1)
      obtain rfl : y = .token answer.1 := by cases y <;> cases hyt; rfl
      obtain ⟨i, hi, hxi⟩ := List.mem_iff_getElem.mp hx
      obtain ⟨j, hj, hyj⟩ := List.mem_iff_getElem.mp hy
      have hapart := List.pairwise_iff_getElem.mp h.tiled.tiles.pairwise
      obtain hij | rfl | hij := Nat.lt_trichotomy i j
      · have hlt := (hapart i j hi hj hij).2
        rw [hxi, hyj] at hlt
        exact hlt
      · cases hxi.symm.trans hyj
      · have hlt := (hapart j i hj hi hij).2
        rw [hxi, hyj] at hlt
        have : answer.1.span.stop ≤ c.span.offset := hlt
        have : c.span.stop ≤ answer.2.position.offset := hstop
        have : 0 < c.span.length := hpos
        unfold Span.stop at *
        omega

theorem comments_rescanRegExp {slash : Token} (h : s.Sound) (ht : slash.Located s.text)
    (he : slash.isEnd = false) : (s.rescanRegExp slash).2.comments = s.comments := by
  have hr := h.rewind ht.span.1
  obtain ⟨c, rest, hc⟩ := rest_rewind ht he
  have ha := (Reads.start hr).next hc
  exact (Scans.of_isPlain (k := .regexp "" "") hr hc (Reads.refl ha.sound).regExpLiteral rfl).reads.comments

theorem comments_rescanTemplate {brace : Token} (h : s.Sound) (ht : brace.Located s.text)
    (he : brace.isEnd = false) : (s.rescanTemplate brace).2.comments = s.comments := by
  have hr := h.rewind ht.span.1
  obtain ⟨c, rest, hc⟩ := rest_rewind ht he
  exact (Scans.of_template hr hc).reads.comments

end Lexer

namespace Grammar

/-- All comments that were noted end before the cursor. -/
def State.Noted (s : State) : Prop := ∀ c ∈ s.lexer.comments.toList, c.span.stop ≤ s.current.span.offset

section Steps

variable {text : List Char} {s t : State}

theorem State.Idle.comments (h : s.Idle t) : t.lexer.comments = s.lexer.comments := by
  obtain h | h := h.lexer <;> rw [h]

theorem State.Standing.comments_readAgain (h : s.Standing text) (r : Rereading) :
    (s.readAgain r).lexer.comments = s.lexer.comments := by
  have hl : s.current.Located s.lexer.text := h.reads ▸ h.current
  unfold State.readAgain
  split
  next hr =>
    have he := State.Standing.isEnd_of_applies hr
    cases r with
    | regExp => exact Lexer.comments_rescanRegExp h.lexer hl he
    | template => exact Lexer.comments_rescanTemplate h.lexer hl he
  next => rfl

/-- Reading on, the lexer notes what lies between two tokens. -/
theorem State.Standing.comments_advanced (h : s.Standing text) {c : Comment}
    (hc : c ∈ s.advanced.lexer.comments.toList) :
    c ∈ s.lexer.comments.toList ∨
      s.current.span.stop ≤ c.span.offset ∧ c.span.stop ≤ s.advanced.current.span.offset := by
  obtain ⟨segments, hx⟩ := h.advances
  rw [h.ahead]
  exact hx.comments hc

theorem State.Standing.noted_advanced (h : s.Standing text) (hn : s.Noted) : s.advanced.Noted := by
  intro c hc
  obtain hold | ⟨-, hstop⟩ := h.comments_advanced hc
  · exact Nat.le_trans (hn c hold) h.le_advanced
  · exact hstop

/-- The comments behind a run: those from before it, and those it has found behind the cursor, all of them
before the new place of the cursor and clear of the tokens. -/
structure Clear (s : State) (tokens : List Token) (t : State) : Prop where
  noted : t.Noted
  behind : ∀ c ∈ t.lexer.comments.toList, c ∈ s.lexer.comments.toList ∨ s.current.span.stop ≤ c.span.offset
  clear : ∀ c ∈ t.lexer.comments.toList, ∀ token ∈ tokens, c.Clear token

/-- **No comment overlaps a token that was read.** -/
theorem Reads.clear {tokens : List Token} (h : Reads s tokens t) (hs : s.Standing text)
    (hn : s.Noted) : Clear s tokens t := by
  induction h with
  | stay s => exact ⟨hn, fun c hc => .inl hc, fun _ _ => List.forall_mem_nil _⟩
  | @idle s u t tokens hi _ ih =>
      have hu : u.Noted := by
        intro c hc
        rw [hi.comments] at hc
        rw [hi.current]
        exact hn c hc
      obtain ⟨hnoted, hbehind, hclear⟩ := ih (hs.idle hi) hu
      rw [hi.comments, hi.current] at hbehind
      exact ⟨hnoted, hbehind, hclear⟩
  | @again s t tokens r _ ih =>
      have hr : (s.readAgain r).Noted := by
        intro c hc
        rw [hs.comments_readAgain] at hc
        rw [hs.offset_readAgain]
        exact hn c hc
      obtain ⟨hnoted, hbehind, hclear⟩ := ih (hs.readAgain r) hr
      rw [hs.comments_readAgain] at hbehind
      refine ⟨hnoted, fun c hc => (hbehind c hc).imp_right (Nat.le_trans ?_), hclear⟩
      -- a token that is read again does not become shorter
      unfold State.readAgain
      split
      next hr => exact (hs.rereads hr).2.reach
      next => exact Nat.le_refl _
  | @advance s t tokens hreads ih =>
      obtain ⟨hnoted, hbehind, hclear⟩ := ih hs.advanced (hs.noted_advanced hn)
      have hold (c : Comment) (hc : c ∈ t.lexer.comments.toList) :
          c ∈ s.lexer.comments.toList ∨ s.current.span.stop ≤ c.span.offset := by
        obtain hc | hc := hbehind c hc
        · exact (hs.comments_advanced hc).imp_right And.left
        · exact .inr (Nat.le_trans hs.stop_le_advanced (Nat.le_trans (Nat.le_add_right _ _) hc))
      refine ⟨hnoted, hold, fun c hc token hm => ?_⟩
      obtain hm | hm := List.mem_append.mp hm
      · unfold State.taken at hm
        split at hm
        · cases hm
        · cases List.mem_singleton.mp hm
          exact (hold c hc).imp_left (hn c)
      · exact hclear c hc token hm

/-- **The comments that were noted ascend.** -/
theorem Reads.ascending {tokens : List Token} (h : Reads s tokens t) (hs : s.Standing text)
    (hn : s.Noted) (ha : Comment.Ascending s.lexer.comments.toList) :
    Comment.Ascending t.lexer.comments.toList := by
  induction h with
  | stay s => exact ha
  | @idle s u t tokens hi _ ih =>
      refine ih (hs.idle hi) (fun c hc => ?_) (hi.comments ▸ ha)
      rw [hi.comments] at hc
      rw [hi.current]
      exact hn c hc
  | @again s t tokens r _ ih =>
      refine ih (hs.readAgain r) (fun c hc => ?_) (hs.comments_readAgain r ▸ ha)
      rw [hs.comments_readAgain] at hc
      rw [hs.offset_readAgain]
      exact hn c hc
  | @advance s t tokens _ ih =>
      refine ih hs.advanced (hs.noted_advanced hn) ?_
      obtain ⟨segments, hx⟩ := hs.advances
      refine hx.tiled.ascending (fun c hc => ?_) ha
      exact Nat.le_trans (Nat.le_trans (hn c hc) (Nat.le_add_right _ _)) (Nat.le_of_eq hs.ahead)

end Steps

/-- Before the first token there may be comments too. -/
theorem State.noted_ofText (source : String) (options : Options) (journal : Journal) :
    (ofText source options journal).Noted := by
  have hs := Lexer.sound_ofChars source.toList options.isStrict
  obtain ⟨xs, hx⟩ := Lexer.exists_advances_nextTokenFrom hs false
  intro c hc
  obtain hold | ⟨-, hstop⟩ := hx.comments hc
  · -- an interpreter line ends where the lexer starts
    obtain ⟨comments, htiled, -⟩ := Lexer.tiled_ofChars source.toList options.isStrict
    have hmem : c ∈ (comments.map Segment.comment).filterMap Segment.comment? := by
      have := htiled.comments
      rw [show (Lexer.atStart source.toList options.isStrict).comments.toList = [] from rfl,
        List.nil_append] at this
      exact this ▸ hold
    obtain ⟨x, hm, hxc⟩ := List.mem_filterMap.mp hmem
    obtain rfl : x = .comment c := by cases x <;> cases hxc; rfl
    exact Nat.le_trans (htiled.tiles.bounds_of_mem hm).2.2 hx.forward
  · exact hstop

theorem State.ascending_ofText (source : String) (options : Options) (journal : Journal) :
    Comment.Ascending (ofText source options journal).lexer.comments.toList := by
  obtain ⟨comments, htiled, -⟩ := Lexer.tiled_ofChars source.toList options.isStrict
  have hs := Lexer.sound_ofChars source.toList options.isStrict
  obtain ⟨xs, hx⟩ := Lexer.exists_advances_nextTokenFrom hs false
  have hnone : (Lexer.atStart source.toList options.isStrict).comments.toList = [] := rfl
  refine hx.tiled.ascending (fun c hc => ?_) (htiled.ascending (fun c hc => ?_) ?_)
  · rw [htiled.comments, hnone, List.nil_append] at hc
    obtain ⟨x, hm, hxc⟩ := List.mem_filterMap.mp hc
    obtain rfl : x = .comment c := by cases x <;> cases hxc; rfl
    exact (htiled.tiles.bounds_of_mem hm).2.2
  · rw [hnone] at hc
    cases hc
  · rw [hnone]
    exact ⟨.nil, nofun⟩

end Grammar

end EcmaScript
