import EcmaScript.Proofs.LexerLog
import EcmaScript.Proofs.Passage

/-!
# Every character belongs to one segment

From the first character of a text to its end the lexer cuts it into segments: tokens, comments, single
blanks and line breaks, and what it has to skip with an error. Nothing is left out and nothing is read
twice.

`Tiled segments s t` says that the lexer came from `s` to the sound state `t` over the listed segments,
one behind the other, that the comments among them are what it noted on the way, and that each of them
is what it is said to be. It composes by appending, so that a loop of the lexer is an induction over
its own recursion. `Lexer.tiled_nextTokenFrom` is the step of a run: what was read up to one token;
`Lexer.tiled_tokensFrom` is the run.
-/

namespace EcmaScript

/-! ## Segments -/

/-- A stretch of a text, as the lexer sees it. -/
inductive Segment where
  | token (t : Token)
  | comment (c : Comment)
  /-- One character between two tokens. -/
  | blank (place : Position)
  /-- What makes up no token, with the problem that was noted for it. -/
  | fault (span : Span) (noted : LexicalDiagnostic)

namespace Segment

def span : Segment → Span
  | token t => t.span
  | comment c => c.span
  | blank place => Span.ofStart place 1
  | fault span _ => span

def token? : Segment → Option Token
  | token t => some t
  | _ => none

def comment? : Segment → Option Comment
  | comment c => some c
  | _ => none

end Segment

/-- The four kinds of stretches that are skipped with an error. -/
def Skipped (text : List Char) (span : Span) (noted : LexicalDiagnostic) : Prop :=
  match noted.problem with
  | .badStart c => noted.position = span.start ∧ span.slice text = [c] ∧ Lexer.startsToken c = false
  | .strayHash =>
    noted.position = span.start ∧ span.slice text = ['#'] ∧
      ∃ rest, text.drop span.offset = '#' :: rest ∧
        ∀ c ∈ rest.head?, c ≠ '!' ∧ c ≠ '\\' ∧ isNameStart c = false
  | .misplacedShebang =>
    noted.position = span.start ∧
      ∃ line, text.drop span.offset = '#' :: '!' :: line ∧
        span.slice text = '#' :: '!' :: line.takeWhile (!isLineTerminator ·)
  | .unterminatedComment =>
    noted.position.offset = text.length ∧ span.stop = text.length ∧
      ∃ body, span.slice text = '/' :: '*' :: body ∧ ¬['*', '/'] <:+: body
  | _ => False

/-- The segment is what it is said to be: a token, a comment with its characters, a blank or line
break, or a stretch for which an error is among `notes`. -/
def Segment.Valid (text : List Char) (notes : Array LexicalDiagnostic) : Segment → Prop
  | token t => t.Located text ∧ t.isEnd = false
  | comment c => c.Located text
  | blank place =>
    place.Located text ∧
      ∃ c, (Span.ofStart place 1).slice text = [c] ∧ (isBlank c || isLineTerminator c) = true
  | fault span noted =>
    span.Located text ∧ noted ∈ notes ∧ noted.severity = .error ∧ Skipped text span noted

/-- The segments lie one behind the other from the offset `a` to the offset `b`, and none is empty. -/
def Tiles : Nat → List Segment → Nat → Prop
  | a, [], b => a = b
  | a, x :: rest, b => x.span.offset = a ∧ 0 < x.span.length ∧ Tiles x.span.stop rest b

namespace Tiles

variable {a b c : Nat} {x : Segment} {xs ys : List Segment}

theorem append (hx : Tiles a xs b) (hy : Tiles b ys c) : Tiles a (xs ++ ys) c := by
  induction xs generalizing a with
  | nil => exact (show a = b from hx) ▸ hy
  | cons x xs ih => exact ⟨hx.1, hx.2.1, ih hx.2.2⟩

theorem le (h : Tiles a xs b) : a ≤ b := by
  induction xs generalizing a with
  | nil => exact Nat.le_of_eq h
  | cons x xs ih =>
      have := ih h.2.2
      rw [← h.1]
      exact Nat.le_trans (Nat.le_add_right _ _) this

theorem lt_of_mem (h : Tiles a xs b) (hx : x ∈ xs) : a < b := by
  cases xs with
  | nil => cases hx
  | cons y ys =>
      refine Nat.lt_of_lt_of_le ?_ (le h.2.2)
      rw [← h.1]
      exact Nat.lt_add_of_pos_right h.2.1

theorem bounds_of_mem (h : Tiles a xs b) (hx : x ∈ xs) :
    a ≤ x.span.offset ∧ 0 < x.span.length ∧ x.span.stop ≤ b := by
  induction xs generalizing a with
  | nil => cases hx
  | cons y ys ih =>
      obtain rfl | hx := List.mem_cons.mp hx
      · exact ⟨Nat.le_of_eq h.1.symm, h.2.1, le h.2.2⟩
      · obtain ⟨hle, hrest⟩ := ih h.2.2 hx
        exact ⟨Nat.le_trans (h.1 ▸ Nat.le_add_right _ _) hle, hrest⟩

/-- No two segments overlap, and they come in the order of the text. -/
theorem pairwise (h : Tiles a xs b) :
    xs.Pairwise fun x y => x.span.offset < y.span.offset ∧ x.span.stop ≤ y.span.offset := by
  induction xs generalizing a with
  | nil => exact .nil
  | cons x xs ih =>
      refine .cons (fun y hy => ?_) (ih h.2.2)
      have hle := (bounds_of_mem h.2.2 hy).1
      exact ⟨Nat.lt_of_lt_of_le (Nat.lt_add_of_pos_right h.2.1) hle, hle⟩

/-- The characters of the segments make up the text between the two ends. -/
theorem flatMap_slice (h : Tiles a xs b) (text : List Char) :
    xs.flatMap (·.span.slice text) = (text.drop a).take (b - a) := by
  induction xs generalizing a with
  | nil => rw [show a = b from h, Nat.sub_self, List.take_zero]; rfl
  | cons x xs ih =>
      have hle := le h.2.2
      have hstop : x.span.stop = a + x.span.length := by rw [← h.1]; rfl
      have hlen : b - a = x.span.length + (b - x.span.stop) := by omega
      rw [List.flatMap_cons, ih h.2.2, hlen, List.take_add, List.drop_drop, ← hstop]
      unfold Span.slice
      rw [h.1]

end Tiles

namespace Lexer

/-- The lexer came from `s` to the sound state `t` over the listed segments. -/
structure Tiled (segments : List Segment) (s t : Lexer) : Prop where
  sound : t.Sound
  grows : Grows s t
  tiles : Tiles s.position.offset segments t.position.offset
  comments : t.comments.toList = s.comments.toList ++ segments.filterMap Segment.comment?
  valid : ∀ x ∈ segments, x.Valid s.text t.diagnostics

end Lexer

/-- What was noted once stays noted. -/
theorem Segment.Valid.mono {text : List Char} {x : Segment} {s t : Lexer}
    (h : x.Valid text s.diagnostics) (hg : Lexer.Grows s t) : x.Valid text t.diagnostics := by
  cases x with
  | token | comment | blank => exact h
  | fault span noted =>
      obtain ⟨hs, hm, hrest⟩ := h
      exact ⟨hs, Array.mem_toList_iff.mp (hg.diagnostics.mem (Array.mem_toList_iff.mpr hm)), hrest⟩

namespace Lexer

namespace Tiled

variable {xs ys : List Segment} {r s t : Lexer} {c : Char} {rest : List Char}

theorem refl (h : s.Sound) : Tiled [] s s :=
  ⟨h, .refl s, rfl, (List.append_nil _).symm, fun _ hx => absurd hx List.not_mem_nil⟩

theorem trans (h : Tiled xs r s) (h' : Tiled ys s t) : Tiled (xs ++ ys) r t := by
  refine ⟨h'.sound, h.grows.trans h'.grows, h.tiles.append h'.tiles, ?_, fun x hx => ?_⟩
  · rw [h'.comments, h.comments, List.filterMap_append, List.append_assoc]
  · obtain hx | hx := List.mem_append.mp hx
    · exact (h.valid x hx).mono h'.grows
    · exact h.grows.text ▸ h'.valid x hx

/-- The place in the line does not matter. -/
theorem setLineStart (h : Tiled xs r s) (b : Bool) : Tiled xs r { s with atLineStart := b } :=
  ⟨{ h.sound with }, h.grows.move _ _ _, h.tiles, h.comments, h.valid⟩

/-- A note that stands for no segment of its own. -/
theorem warning (h : Tiled xs r s) (m : LexicalProblem) :
    Tiled xs r (s.warning s.position m) :=
  have hr := (Reads.start h.sound).warning h.sound.place m
  have hg : Grows s (s.warning s.position m) := (Grows.refl s).warning _ _
  ⟨hr.sound, h.grows.trans hg, h.tiles, h.comments, fun x hx => (h.valid x hx).mono hg⟩

/-- What was read without a comment is one segment of another kind. -/
theorem of_reads {x : Segment} (h : Reads true s t) (hg : Grows s t)
    (hlt : s.position.offset < t.position.offset)
    (hx : x.span = Span.between s.position t.position.offset) (hc : x.comment? = none)
    (hv : x.Valid s.text t.diagnostics) : Tiled [x] s t := by
  have hstop := Span.stop_between (Nat.le_of_lt hlt)
  refine ⟨h.sound, hg, ⟨by rw [hx]; rfl, ?_, ?_⟩, ?_, List.forall_mem_singleton.mpr hv⟩
  · rw [hx]
    exact Nat.sub_pos_of_lt hlt
  · rw [hx]
    exact hstop
  · rw [h.comments, List.filterMap_cons_none hc, List.filterMap_nil, List.append_nil]

end Tiled

/-- The characters of what was read. -/
theorem slice_between {s : Lexer} (h : s.Sound) (n : Nat) :
    (Span.between s.position n).slice s.text = s.rest.take (n - s.position.offset) := by
  rw [h.rest]
  rfl

/-! ## Blanks and comments -/

theorem tiled_blank {s : Lexer} {c : Char} {rest : List Char} (h : s.Sound) (hc : s.rest = c :: rest)
    (hb : (isBlank c || isLineTerminator c) = true) : Tiled [.blank s.position] s s.advance := by
  have ho : s.advance.position.offset = s.position.offset + 1 := (Passes.advance hc).offset
  have hspan : Span.ofStart s.position 1 = Span.between s.position s.advance.position.offset := by
    rw [ho]
    unfold Span.between
    rw [Nat.add_sub_cancel_left]
  refine Tiled.of_reads ((Reads.refl h).next hc) (Grows.refl s).advance (by omega) hspan rfl
    ⟨h.place, c, ?_, hb⟩
  rw [hspan, slice_between h, ho, hc, Nat.add_sub_cancel_left]
  rfl

/-- The comment from `start` to the present place. -/
def commentSince (s : Lexer) (kind : CommentKind) (start : Position) : Comment :=
  ⟨kind, String.ofList (s.textSince start), Span.between start s.position.offset⟩

theorem pushComment_eq {s : Lexer} {p : Position} (h : s.covers p = true) (k : CommentKind) :
    s.pushComment k p = { s with comments := s.comments.push (s.commentSince k p) } := by
  unfold pushComment cutSince
  rw [if_pos h]
  rfl

/-- What was read is noted as a comment. -/
theorem tiled_pushComment {s t : Lexer} (hs : s.Sound) (h : Reads true s t) (hg : Grows s t)
    (hlt : s.position.offset < t.position.offset) (k : CommentKind) :
    Tiled [.comment (t.commentSince k s.position)] s (t.pushComment k s.position) := by
  have hle := h.sound.place.offset_le
  have hcov : t.covers s.position = true := by
    simp only [covers, Bool.and_eq_true, decide_eq_true_eq]
    omega
  have hc : (t.commentSince k s.position).Located t.text :=
    ⟨Span.located_between (h.text ▸ hs.place) hle, rfl⟩
  refine ⟨?_, hg.pushComment k _, ?_, ?_, List.forall_mem_singleton.mpr (h.text ▸ hc)⟩
  · rw [pushComment_eq hcov]
    refine { h.sound with comments := fun d hd => ?_ }
    obtain hd | rfl := Array.mem_push.mp hd
    · exact h.sound.comments d hd
    · exact hc
  · rw [pushComment_eq hcov]
    exact ⟨rfl, Nat.sub_pos_of_lt hlt, Span.stop_between (Nat.le_of_lt hlt)⟩
  · rw [pushComment_eq hcov, Array.toList_push, h.comments]
    rfl

theorem tiled_lineComment {s : Lexer} {c : Char} {rest : List Char} (h : s.Sound)
    (hc : s.rest = c :: rest) (k : CommentKind) : ∃ x, Tiled [.comment x] s (s.lineComment k) := by
  have ha := (Reads.start h).next hc
  have hr := (Reads.start ha.sound).skipAll fun c => !isLineTerminator c
  exact ⟨_, tiled_pushComment h (ha.trans hr) (Grows.refl s).advance.skipLine
    (Scans.lt_of_reads hc hr) k⟩

/-- Without a star and a slash behind it, a comment reaches to the end of the text. -/
theorem skipBlockBody_spec (s : Lexer) (newline : Bool) :
    ((s.skipBlockBody newline).2.rest = [] ∧ ¬['*', '/'] <:+: s.rest) ∨
      ∃ rest, (s.skipBlockBody newline).2.rest = '*' :: '/' :: rest := by
  fun_induction skipBlockBody s newline with
  | case1 s _ hs => exact Or.inl ⟨hs, by rw [hs]; simp⟩
  | case2 s _ c rest hs hend =>
      simp only [Bool.and_eq_true, beq_iff_eq, List.head?_eq_some_iff] at hend
      obtain ⟨rfl, tail, rfl⟩ := hend
      exact Or.inr ⟨tail, hs⟩
  | case3 s _ c rest hs hend ih =>
      refine ih.imp_left fun h => ⟨h.1, fun hin => h.2 ?_⟩
      rw [rest_advance hs]
      rw [hs] at hin
      obtain hpre | hin := List.infix_cons_iff.mp hin
      · obtain ⟨tail, ht⟩ := hpre
        cases ht
        exact absurd rfl hend
      · exact hin

theorem Reads.skipBlockBody {r s : Lexer} (h : Reads true r s) (newline : Bool) :
    Reads true r (s.skipBlockBody newline).2 := by
  fun_induction Lexer.skipBlockBody s newline with
  | case1 => exact h
  | case2 => exact h
  | case3 _ _ _ _ hc _ ih => exact ih (h.next hc)

/-- Where nothing is left the text ends. -/
theorem Sound.offset_eq {s : Lexer} (h : s.Sound) (hr : s.rest = []) :
    s.position.offset = s.text.length := by
  have hd := h.rest
  rw [hr] at hd
  exact Nat.le_antisymm h.place.offset_le (List.drop_eq_nil_iff.mp hd.symm)

/-- A block comment, or an error up to the end of the text. -/
theorem tiled_blockComment {s : Lexer} (h : s.Sound) (hc : ∃ tail, s.rest = '/' :: '*' :: tail) :
    ∃ x : Segment, x.token? = none ∧ Tiled [x] s s.blockComment.2 := by
  obtain ⟨rest, hc⟩ := hc
  have ha := (Reads.start h).next hc
  have hb := (Reads.start ha.sound).next (rest_advance hc)
  have hrest : s.advance.advance.rest = rest := rest_advance (rest_advance hc)
  have hg := (Grows.refl s).advance.advance.skipBlockBody false
  have hr := hb.skipBlockBody false
  have hspec := s.advance.advance.skipBlockBody_spec false
  unfold blockComment
  split
  next newline body heq =>
    rw [heq] at hg hr hspec
    have hs := ha.trans hr
    have hlt := Scans.lt_of_reads hc hr
    obtain ⟨hend, hno⟩ | ⟨tail, htail⟩ := hspec
    · have ho := hs.sound.offset_eq hend
      rw [hs.text] at ho
      rw [hend]
      refine ⟨.fault (Span.between s.position body.position.offset)
        ⟨body.position, .unterminatedComment, .error⟩, rfl,
        Tiled.of_reads (hs.error hs.here _) (hg.error _ _) hlt rfl rfl
          ⟨Span.located_between h.place (Nat.le_of_eq ho), Array.mem_push_self, rfl, ho,
            (Span.stop_between (Nat.le_of_lt hlt)).trans ho, rest, ?_, hrest ▸ hno⟩⟩
      rw [slice_between h, hc, ← hc, List.take_of_length_le]
      exact Nat.le_of_eq (by rw [h.rest, List.length_drop, ho])
    · have hd := (hs.next htail).next (rest_advance htail)
      have hrd := (hr.next htail).next (rest_advance htail)
      rw [htail]
      exact ⟨_, rfl, tiled_pushComment h hd hg.advance.advance (Scans.lt_of_reads hc hrd) _⟩

theorem rest_of_slashStar {s : Lexer} {c : Char} {rest : List Char} (hc : s.rest = c :: rest)
    (hb : (c == '/' && rest.head? == some '*') = true) : ∃ tail, s.rest = '/' :: '*' :: tail := by
  simp only [Bool.and_eq_true, beq_iff_eq, List.head?_eq_some_iff] at hb
  obtain ⟨rfl, tail, rfl⟩ := hb
  exact ⟨tail, hc⟩

/-- Nothing but segments that are no tokens lies between the two states. -/
def Gap (s t : Lexer) : Prop :=
  ∃ xs : List Segment, (∀ x ∈ xs, x.token? = none) ∧ Tiled xs s t

namespace Gap

variable {r s t : Lexer}

theorem refl (h : s.Sound) : Gap s s := ⟨[], fun _ hx => absurd hx List.not_mem_nil, .refl h⟩

theorem single (h : ∃ x : Segment, x.token? = none ∧ Tiled [x] s t) : Gap s t :=
  have ⟨x, hx, ht⟩ := h
  ⟨[x], List.forall_mem_singleton.mpr hx, ht⟩

theorem trans : Gap r s → Gap s t → Gap r t
  | ⟨xs, hx, hs⟩, ⟨ys, hy, ht⟩ =>
    ⟨xs ++ ys, fun x h => (List.mem_append.mp h).elim (hx x) (hy x), hs.trans ht⟩

theorem setLineStart : Gap r s → ∀ b, Gap r { s with atLineStart := b }
  | ⟨xs, hx, hs⟩, b => ⟨xs, hx, hs.setLineStart b⟩

theorem sound : Gap r s → s.Sound
  | ⟨_, _, hs⟩ => hs.sound

end Gap

/-- **Between two tokens** lie blanks, line breaks, comments and comments without an end. -/
theorem gap_skipTrivia {s : Lexer} (h : s.Sound) (newline : Bool) :
    Gap s (s.skipTrivia newline).2 := by
  fun_induction skipTrivia s newline with
  | case1 => exact .refl h
  | case2 s _ c rest hc hl ih =>
      have hs := (Gap.single ⟨_, rfl, tiled_blank h hc (by simp [hl])⟩).setLineStart true
      exact hs.trans (ih hs.sound)
  | case3 s _ c rest hc _ hb ih =>
      have hs := Gap.single ⟨_, rfl, tiled_blank h hc (by simp [hb])⟩
      exact hs.trans (ih hs.sound)
  | case4 s _ c rest hc _ _ _ ih =>
      obtain ⟨x, hx⟩ := tiled_lineComment h hc .line
      have hs := Gap.single ⟨_, rfl, hx⟩
      exact hs.trans (ih hs.sound)
  | case5 s _ c rest hc _ _ _ hb _ ih =>
      have hs := (Gap.single (tiled_blockComment h (rest_of_slashStar hc hb))).setLineStart true
      exact hs.trans (ih hs.sound)
  | case6 s _ c rest hc _ _ _ hb _ ih =>
      have hs := Gap.single (tiled_blockComment h (rest_of_slashStar hc hb))
      exact hs.trans (ih hs.sound)
  | case7 s _ c rest hc _ _ _ _ _ ih =>
      have hw := (Tiled.refl h).warning .htmlComment
      obtain ⟨x, hx⟩ := tiled_lineComment hw.sound hc .html
      have hs := Gap.single ⟨_, rfl, hw.trans hx⟩
      exact hs.trans (ih hs.sound)
  | case8 => exact .refl h

/-! ## Faults -/

/-- Skipping reads the longest stretch of the class. -/
theorem offset_skipWhile (p : Char → Bool) (s : Lexer) :
    (s.skipWhile p).position.offset = s.position.offset + (s.rest.takeWhile p).length :=
  (Passes.skipWhile p s).offset

theorem offset_advance {s : Lexer} {c : Char} {rest : List Char} (h : s.rest = c :: rest) :
    s.advance.position.offset = s.position.offset + 1 := (Passes.advance h).offset

/-- A stretch that is skipped behind an error. -/
theorem gap_of_skipped {s t : Lexer} {c : Char} {rest : List Char} {m : LexicalProblem} (h : s.Sound)
    (hc : s.rest = c :: rest) (ht : Reads true (s.error s.position m).advance t)
    (hg : Grows (s.error s.position m) t)
    (hv : Skipped s.text (Span.between s.position t.position.offset) ⟨s.position, m, .error⟩) :
    Gap s t := by
  have he := (Reads.start h).error h.place m
  have hr : Reads true s t := (he.next hc).trans ht
  refine Gap.single ⟨.fault (Span.between s.position t.position.offset) ⟨s.position, m, .error⟩, rfl,
    Tiled.of_reads hr (((Grows.refl s).error _ m).trans hg)
      (Scans.lt_of_reads (s := s.error s.position m) hc ht) rfl rfl
      ⟨Span.located_between h.place hr.here.offset_le, ?_, rfl, hv⟩⟩
  exact Array.mem_toList_iff.mp (hg.diagnostics.mem (Array.mem_toList_iff.mpr Array.mem_push_self))

/-- A single character that is skipped behind an error. -/
theorem gap_of_skipped_char {s : Lexer} {c : Char} {rest : List Char} (h : s.Sound)
    (hc : s.rest = c :: rest) (m : LexicalProblem)
    (hv : (Span.ofStart s.position 1).slice s.text = [c] →
      Skipped s.text (Span.ofStart s.position 1) ⟨s.position, m, .error⟩) :
    Gap s (s.error s.position m).advance := by
  have ho : (s.error s.position m).advance.position.offset = s.position.offset + 1 :=
    offset_advance hc
  have hspan : Span.between s.position (s.error s.position m).advance.position.offset =
      Span.ofStart s.position 1 := by
    rw [ho]
    unfold Span.between
    rw [Nat.add_sub_cancel_left]
  have he := (Reads.start h).error h.place m
  refine gap_of_skipped h hc (.refl (he.next hc).sound) (Grows.refl _).advance ?_
  rw [hspan]
  refine hv ?_
  rw [← hspan, slice_between h, ho, hc, Nat.add_sub_cancel_left]
  rfl

theorem gap_skipFault {s t : Lexer} (h : s.Sound) (ht : s.skipFault? = some t) :
    Gap s t := by
  unfold skipFault? at ht
  split at ht
  next => cases ht
  next rest hc =>
    have hd : s.text.drop s.position.offset = '#' :: rest := h.rest ▸ hc
    split at ht
    next line =>
      cases ht
      have he := (Reads.start h).error h.place .misplacedShebang
      have hr : (s.error s.position .misplacedShebang).advance.rest = '!' :: line := rest_advance hc
      refine (gap_of_skipped h hc ((Reads.refl (he.next hc).sound).skipAll _)
        (Grows.refl _).advance.skipLine ⟨rfl, line, hd, ?_⟩).setLineStart false
      have ho : (s.error s.position .misplacedShebang).advance.position.offset =
          s.position.offset + 1 := offset_advance hc
      have hlen (n : Nat) : s.position.offset + 1 + (n + 1) - s.position.offset = n + 1 + 1 := by
        omega
      have hline := List.takeWhile_cons_of_pos (p := fun c => !isLineTerminator c) (l := line)
        (show (!isLineTerminator '!') = true from rfl)
      rw [slice_between h, offset_skipWhile, hr, ho, hc, hline, List.length_cons, hlen,
        List.take_succ_cons, List.take_succ_cons,
        ← List.prefix_iff_eq_take.mp (List.takeWhile_prefix _)]
    next c _ hne =>
      split at ht
      next => cases ht
      next hno =>
        cases ht
        refine (gap_of_skipped_char h hc .strayHash fun hs => ⟨rfl, hs, _, hd, ?_⟩).setLineStart false
        simp only [Bool.or_eq_true, beq_iff_eq, not_or, Bool.not_eq_true] at hno
        intro d hd'
        cases hd'
        exact ⟨hne, hno.2, hno.1⟩
    next =>
      cases ht
      exact (gap_of_skipped_char h hc .strayHash fun hs =>
        ⟨rfl, hs, _, hd, fun _ hx => absurd hx (by simp)⟩).setLineStart false
  next c rest hne hc =>
    split at ht
    next => cases ht
    next hno =>
      cases ht
      exact (gap_of_skipped_char h hc (.badStart c) fun hs =>
        ⟨rfl, hs, Bool.eq_false_iff.mpr hno⟩).setLineStart false

/-- What is no fault starts on its line. -/
theorem isLineTerminator_of_skipFault {s : Lexer} {c : Char} {rest : List Char}
    (hc : s.rest = c :: rest) (hf : s.skipFault? = none) : isLineTerminator c = false := by
  unfold skipFault? at hf
  rw [hc] at hf
  split at hf
  next heq => cases heq
  next heq => cases heq; rfl
  next heq =>
    cases heq
    split at hf
    next hs => exact isLineTerminator_eq_false hs (by decide +kernel)
    next => cases hf

/-! ## Tokens -/

namespace Scans

variable {s t : Lexer} {k : TokenKind}

theorem isEnd_finish (h : Scans s k t) (newline escaped : Bool) :
    (t.finish k s.position newline escaped).isEnd = false := by
  cases k with
  | endOfText => exact absurd rfl h.nonempty
  | _ => rfl

theorem tiled_finish (h : Scans s k t) (hs : s.Sound) (hg : Grows s t) (newline escaped : Bool) :
    Tiled [.token (t.finish k s.position newline escaped)] s t :=
  Tiled.of_reads h.reads hg h.more rfl rfl
    ⟨h.located_finish hs newline escaped, h.isEnd_finish newline escaped⟩

end Scans

/-- What was read up to a token, and the token: nothing is a token before it, and the end of the text
takes no character. -/
structure Advances (s : Lexer) (segments : List Segment) (answer : Token × Lexer) : Prop where
  tiled : Tiled segments s answer.2
  token : answer.1.Located s.text
  spelled : answer.1.Spelled s.text
  tokens : segments.filterMap Segment.token? = if answer.1.isEnd then [] else [answer.1]
  forward : s.position.offset ≤ answer.1.span.offset
  stop : answer.1.span.stop = answer.2.position.offset
  finished : answer.1.isEnd = true → answer.2.rest = [] ∧ answer.1.span.length = 0

/-- **The step.** -/
theorem exists_advances_nextTokenFrom {s : Lexer} (h : s.Sound) (newline : Bool) :
    ∃ segments, Advances s segments (s.nextTokenFrom newline) := by
  -- behind a fault the search goes on with less of the text left
  induction hn : s.rest.length using Nat.strongRecOn generalizing s newline with
  | ind n ih =>
      have hs := gap_skipTrivia h newline
      have hl := s.length_rest_skipTrivia_le newline
      rw [nextTokenFrom]
      split
      next broken t ht =>
        rw [ht] at hs hl
        split
        next u hu =>
          have hlt := Nat.lt_of_lt_of_le (length_rest_skipFault?_lt hu) hl
          have hgap := hs.trans (gap_skipFault hs.sound hu)
          obtain ⟨ys, hy⟩ := ih _ (hn ▸ hlt) hgap.sound broken rfl
          obtain ⟨xs, hx, hxs⟩ := hgap
          refine ⟨xs ++ ys, hxs.trans hy.tiled, hxs.grows.text ▸ hy.token,
            hxs.grows.text ▸ hy.spelled, ?_, Nat.le_trans hxs.tiles.le hy.forward, hy.stop,
            hy.finished⟩
          rw [List.filterMap_append, List.filterMap_eq_nil_iff.mpr hx, List.nil_append, hy.tokens]
        next hf =>
          obtain ⟨xs, hx, hxs⟩ := hs
          have hnil := List.filterMap_eq_nil_iff.mpr hx
          split
          next hr =>
            exact ⟨xs, hxs, hxs.grows.text ▸ located_finish_end hxs.sound _ _,
              (fun _ he => by cases he), hnil, hxs.tiles.le, Span.stop_between (Nat.le_refl _),
              fun _ => ⟨hr, Nat.sub_self _⟩⟩
          next c rest hr =>
            have ht' := hxs.setLineStart false
            have hscan := Scans.scan ht'.sound hr (isLineTerminator_of_skipFault hr hf)
            have hgrow := (Grows.refl { t with atLineStart := false }).scan c
            split
            next kind escaped u heq =>
              rw [heq] at hscan hgrow
              have htok := hscan.tiled_finish ht'.sound hgrow broken escaped
              have hend := hscan.isEnd_finish broken escaped
              refine ⟨xs ++ [_], ht'.trans htok, ?_, ?_, ?_, hxs.tiles.le,
                hscan.stop_finish broken escaped, fun he => absurd he (by simp [hend])⟩
              · exact hxs.grows.text ▸ hscan.located_finish ht'.sound broken escaped
              · exact hxs.grows.text ▸ hscan.spelled_finish ht'.sound broken escaped
              · rw [List.filterMap_append, hnil, if_neg (by simp [hend])]
                rfl

namespace Advances

variable {s : Lexer} {segments : List Segment} {answer : Token × Lexer}

theorem gives (h : Advances s segments answer) : Gives s answer :=
  ⟨h.tiled.sound, h.tiled.grows.text, h.token⟩

/-- A token that is not the end of the text takes at least one character. -/
theorem offset_lt (h : Advances s segments answer) (he : answer.1.isEnd = false) :
    s.position.offset < answer.2.position.offset := by
  have ht := h.tokens
  rw [he, if_neg Bool.false_ne_true] at ht
  obtain ⟨x, hx, -⟩ := List.mem_filterMap.mp (ht ▸ List.mem_singleton_self answer.1)
  exact h.tiled.tiles.lt_of_mem hx

end Advances

theorem Sound.gives_nextToken {s : Lexer} (h : s.Sound) : Gives s s.nextToken :=
  have ⟨_, ha⟩ := exists_advances_nextTokenFrom h false
  ha.gives

/-- **The run**, when there is enough fuel for all that is left of the text. -/
theorem exists_tiled_tokensFrom {s : Lexer} (h : s.Sound) {fuel : Nat} (hf : s.rest.length ≤ fuel) :
    ∃ segments last, Tiled segments s (tokensFrom fuel s).2 ∧ last.isEnd = true ∧
      (tokensFrom fuel s).1 = segments.filterMap Segment.token? ++ [last] ∧
      (tokensFrom fuel s).2.rest = [] := by
  induction fuel generalizing s with
  | zero =>
      obtain ⟨xs, hx⟩ := exists_advances_nextTokenFrom h false
      have hr : s.rest = [] := List.eq_nil_of_length_eq_zero (Nat.le_zero.mp hf)
      cases he : (s.nextTokenFrom false).1.isEnd with
      | true => exact ⟨xs, _, hx.tiled, he, by rw [hx.tokens, he]; rfl, (hx.finished he).1⟩
      | false =>
          -- at the end of the text there is no room for a further token
          have hlt := hx.offset_lt he
          have hle := hx.tiled.sound.place.offset_le
          rw [hx.tiled.grows.text, ← h.offset_eq hr] at hle
          exact absurd hlt (Nat.not_lt.mpr hle)
  | succ fuel ih =>
      obtain ⟨xs, hx⟩ := exists_advances_nextTokenFrom h false
      unfold tokensFrom nextToken
      split
      next t s' heq =>
        rw [heq] at hx
        split
        next he =>
          exact ⟨xs, t, hx.tiled, he, by rw [hx.tokens, if_pos he]; rfl, (hx.finished he).1⟩
        next he =>
          have hlt : s.position.offset < s'.position.offset :=
            hx.offset_lt (Bool.eq_false_iff.mpr he)
          have hlen : s'.rest.length = s.text.length - s'.position.offset := by
            rw [hx.tiled.sound.rest, hx.tiled.grows.text, List.length_drop]
          have hrest : s'.rest.length ≤ fuel := by
            rw [h.rest, List.length_drop] at hf
            omega
          obtain ⟨ys, last, hy, hlast, hts, hend⟩ := ih hx.tiled.sound hrest
          refine ⟨xs ++ ys, last, hx.tiled.trans hy, hlast, ?_, hend⟩
          rw [List.filterMap_append, hx.tokens, if_neg he]
          exact congrArg (t :: ·) hts

/-! ## The whole text -/

/-- The lexer at the very start of a text, before it looks for an interpreter line. -/
def atStart (text : List Char) (strict : Bool) : Lexer :=
  ⟨text, strict, text, .start, true, #[], #[], #[], false⟩

theorem sound_atStart (text : List Char) (strict : Bool) : (atStart text strict).Sound :=
  ⟨rfl, Position.located_start text, rfl, nofun, nofun, nofun⟩

theorem ofChars_eq (text : List Char) (strict : Bool) :
    ofChars text strict =
      if (atStart text strict).startsWith ['#', '!'] then (atStart text strict).lineComment .shebang
      else atStart text strict := rfl

/-- An interpreter line is a comment, and the lexer starts behind it. -/
theorem tiled_ofChars (text : List Char) (strict : Bool) :
    ∃ comments : List Comment,
      Tiled (comments.map Segment.comment) (atStart text strict) (ofChars text strict) ∧
      (['#', '!'] <+: text → 0 < (ofChars text strict).position.offset) := by
  have hs := sound_atStart text strict
  rw [ofChars_eq]
  split
  next h =>
    obtain ⟨rest, hr⟩ := List.isPrefixOf_iff_prefix.mp h
    obtain ⟨c, ht⟩ := tiled_lineComment hs hr.symm .shebang
    exact ⟨[c], ht, fun _ => ht.tiles.lt_of_mem (List.mem_singleton_self _)⟩
  next h => exact ⟨[], .refl hs, fun hp => absurd (List.isPrefixOf_iff_prefix.mpr hp) h⟩

theorem sound_ofChars (text : List Char) (strict : Bool) : (ofChars text strict).Sound :=
  have ⟨_, h, _⟩ := tiled_ofChars text strict
  h.sound

theorem text_ofChars (text : List Char) (strict : Bool) : (ofChars text strict).text = text :=
  have ⟨_, h, _⟩ := tiled_ofChars text strict
  h.grows.text

/-- The lexer after `n` tokens. -/
def afterTokens : Nat → Lexer → Lexer
  | 0, s => s
  | n + 1, s => afterTokens n s.nextToken.2

/-- Each token but the end of the text moves the lexer on. -/
theorem offset_lt_nextToken_afterTokens {s : Lexer} (h : s.Sound) (n : Nat)
    (he : (s.afterTokens n).nextToken.1.isEnd = false) :
    (s.afterTokens n).position.offset < (s.afterTokens n).nextToken.2.position.offset := by
  obtain ⟨xs, hx⟩ := exists_advances_nextTokenFrom h false
  induction n generalizing s xs with
  | zero => exact hx.offset_lt he
  | succ n ih =>
      obtain ⟨ys, hy⟩ := exists_advances_nextTokenFrom hx.tiled.sound false
      exact ih hx.tiled.sound he ys hy

/-- **No character is lost and none is read twice.** The tokens of a text up to its end, the comments
that were noted, blanks, line breaks and stretches that were skipped with an error lie one behind the
other from the first character to the last. -/
theorem exists_segments_tokens (text : List Char) (strict : Bool) :
    ∃ segments last,
      Tiles 0 segments text.length ∧ segments.flatMap (·.span.slice text) = text ∧
      (ofChars text strict).tokens.1 = segments.filterMap Segment.token? ++ [last] ∧
      last.isEnd = true ∧
      (ofChars text strict).tokens.2.comments.toList = segments.filterMap Segment.comment? ∧
      (∀ x ∈ segments, x.Valid text (ofChars text strict).tokens.2.diagnostics) ∧
      (∀ span noted, .fault span noted ∈ segments → noted.problem = .misplacedShebang →
        0 < span.offset) ∧
      ((ofChars text strict).tokens.2.comments.toList.Pairwise fun a b =>
        a.span.offset < b.span.offset ∧ a.span.stop ≤ b.span.offset) ∧
      ∀ n, ((ofChars text strict).afterTokens n).nextToken.1.isEnd = false →
        ((ofChars text strict).afterTokens n).position.offset <
          ((ofChars text strict).afterTokens n).nextToken.2.position.offset := by
  obtain ⟨comments, hxs, hbegun⟩ := tiled_ofChars text strict
  obtain ⟨ys, last, hys, hlast, hts, hend⟩ := exists_tiled_tokensFrom hxs.sound (Nat.le_refl _)
  have h := hxs.trans hys
  have htiles : Tiles 0 (comments.map Segment.comment ++ ys) text.length := by
    have ho := h.sound.offset_eq hend
    rw [h.grows.text] at ho
    exact (show _ = text.length from ho) ▸ h.tiles
  refine ⟨_, last, htiles, ?_, ?_, hlast, h.comments, h.valid, ?_, ?_, fun n =>
    offset_lt_nextToken_afterTokens hxs.sound n⟩
  · rw [htiles.flatMap_slice, List.drop_zero, Nat.sub_zero, List.take_length]
  · have hnil : (comments.map Segment.comment).filterMap Segment.token? = [] := by simp [Segment.token?]
    rw [List.filterMap_append, hnil]
    exact hts
  · -- an interpreter line at the start was taken for a comment
    intro span noted hmem hshebang
    have hv := (h.valid _ hmem).2.2.2
    unfold Skipped at hv
    rw [hshebang] at hv
    obtain ⟨-, line, hline, -⟩ := hv
    obtain hmem | hmem := List.mem_append.mp hmem
    · simp at hmem
    · refine Nat.pos_of_ne_zero fun hz => ?_
      rw [hz, List.drop_zero] at hline
      have hpos := hbegun ⟨line, hline.symm⟩
      have hle : _ ≤ span.offset := (hys.tiles.bounds_of_mem hmem).1
      omega
  · show (tokensFrom _ _).2.comments.toList.Pairwise _
    rw [h.comments]
    refine htiles.pairwise.filterMap _ fun x y hxy c hc d hd => ?_
    cases x <;> cases hc
    cases y <;> cases hd
    exact hxy

end Lexer

end EcmaScript
