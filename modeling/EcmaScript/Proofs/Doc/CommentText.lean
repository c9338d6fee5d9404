import EcmaScript.Comment.Run
import EcmaScript.Doc.Text
import EcmaScript.Proofs.LexerReads
import EcmaScript.Proofs.LineCount

/-!
# The text of a comment and the lines of the source

Two loops count lines once more: the one that strips a documentation comment, which gives no column to the
carriage return of a pair, and the one that finds the line on which a comment ends. Both run over the comment
alone, from the place where it starts, and both are right only because a comment does not end with a carriage
return: a line feed behind it would belong to the same line break and could not be seen.

Which characters the stripping loop keeps depends on a flag that it carries along. What the flag stands for is
said without the loop: `inMargin body i` looks back from `i` for the end of a line break with nothing but
indentation behind it. Where the flag differs from it a line terminator is read next, and that does not ask for
the flag.

## Contents

* `Doc.Region.leftOut`: the characters of a body that its text does not keep.
* `Doc.Region.map_chars_ofComment`: the characters of a text, with their offsets.
* `Doc.Region.located_ofComment`: the places of these characters.
* `Comment.lastLine_eq`: the line on which a comment ends.
-/

namespace EcmaScript

/-- What a list does not end with, its rest does not end with either. -/
theorem getLast?_ne_of_cons {c d : Char} {rest : List Char} (h : (c :: rest).getLast? ≠ some d) :
    rest.getLast? ≠ some d := by
  intro hrest
  rw [List.getLast?_cons, hrest] at h
  exact h rfl

/-- The source goes on from the start of a comment with its characters. -/
theorem Comment.Located.exists_drop_eq_append {text : List Char} {c : Comment} (h : c.Located text) :
    ∃ tail, text.drop c.span.start.offset = c.text.toList ++ tail := by
  rw [h.verbatim, String.toList_ofList]
  exact ⟨_, (List.take_append_drop c.span.length (text.drop c.span.offset)).symm⟩

namespace Doc.Region

/-! ## What is kept -/

/-- The blanks that may stand in front of the star of a line. -/
def isIndent (c : Char) : Bool := c == ' ' || c == '\t'

/-- Whether nothing but indentation stands between the end of a line break and the offset. The first line
starts behind no line break and has no margin. -/
def inMargin (body : List Char) (i : Nat) : Bool :=
  (List.range (i + 1)).any fun j => endsBreak body j && ((body.take i).drop j).all isIndent

/-- Whether the text of a comment does not keep the character at the offset: the carriage return of a pair,
and in the margin of a line its indentation and a star. -/
def leftOut (body : List Char) (i : Nat) : Bool :=
  match body[i]? with
  | some '\r' => body[i + 1]? == some '\n'
  | some c => inMargin body i && (isIndent c || c == '*')
  | none => false

/-- A character as the text keeps it: a line break is a line feed. -/
def asRead (c : Char) : Char := if isLineTerminator c then '\n' else c

theorem isLineTerminator_of_isIndent {c : Char} (h : isIndent c = true) : isLineTerminator c = false := by
  simp only [isIndent, Bool.or_eq_true, beq_iff_eq] at h
  rcases h with rfl | rfl <;> rfl

@[simp] theorem inMargin_zero (body : List Char) : inMargin body 0 = false := rfl

/-- The margin goes on behind indentation and starts behind a line break. -/
theorem inMargin_succ {body rest : List Char} {c : Char} {i : Nat} (h : body.drop i = c :: rest) :
    inMargin body (i + 1) = (endsBreak body (i + 1) || inMargin body i && isIndent c) := by
  have hc := getElem?_of_drop h
  have hi : i < body.length := (List.getElem?_eq_some_iff.mp hc).1
  have htake : body.take (i + 1) = body.take i ++ [c] := by rw [List.take_add_one, hc]; rfl
  have hearlier (j : Nat) (hj : j ∈ List.range (i + 1)) :
      ((body.take (i + 1)).drop j).all isIndent = (((body.take i).drop j).all isIndent && isIndent c) := by
    have hle : j ≤ (body.take i).length := by
      have := List.mem_range.mp hj
      rw [List.length_take]
      omega
    rw [htake, List.drop_append_of_le_length hle, List.all_append]
    simp
  have hhere : ((body.take (i + 1)).drop (i + 1)).all isIndent = true := by
    rw [List.drop_eq_nil_of_le (List.length_take_le _ _)]
    rfl
  rw [Bool.eq_iff_iff]
  unfold inMargin
  simp only [List.any_eq_true, Bool.or_eq_true, Bool.and_eq_true]
  constructor
  · rintro ⟨j, hj, hbreak, hall⟩
    rw [List.range_succ, List.mem_append, List.mem_singleton] at hj
    rcases hj with hj | rfl
    · rw [hearlier j hj, Bool.and_eq_true] at hall
      exact Or.inr ⟨⟨j, hj, hbreak, hall.1⟩, hall.2⟩
    · exact Or.inl hbreak
  · rintro (hbreak | ⟨⟨j, hj, hbreak, hall⟩, hindent⟩)
    · exact ⟨i + 1, List.mem_range.mpr (Nat.lt_succ_self _), hbreak, hhere⟩
    · refine ⟨j, List.mem_range.mpr (Nat.lt_succ_of_lt (List.mem_range.mp hj)), hbreak, ?_⟩
      rw [hearlier j hj, Bool.and_eq_true]
      exact ⟨hall, hindent⟩

/-! ## The loop that strips -/

/-- Whether the loop passes over a character that `rest` follows. -/
def isDropped (flag : Bool) (c : Char) (rest : List Char) : Bool :=
  if isLineTerminator c then !breaksLine c rest else flag && (isIndent c || c == '*')

/-- The flag of the loop behind a character. -/
def flagAfter (flag : Bool) (c : Char) : Bool := isLineTerminator c || flag && isIndent c

/-- **One turn of the loop** within the body. -/
theorem collect_cons {first last i : Nat} (h : (first ≤ i && i < last) = true) (p : Position) (flag : Bool)
    (c : Char) (rest : List Char) :
    (collect first last i p flag (c :: rest)).1 =
      (if isDropped flag c rest then [] else [(asRead c, p)]) ++
        (collect first last (i + 1) (after p c rest) (flagAfter flag c) rest).1 := by
  rw [collect, if_pos h]
  unfold isDropped flagAfter asRead
  by_cases hl : isLineTerminator c = true
  · by_cases hbreak : breaksLine c rest = true <;> simp [hl, hbreak]
  · rw [Bool.not_eq_true] at hl
    by_cases hindent : (flag && isIndent c) = true
    · have hindent' : (flag && (c == ' ' || c == '\t')) = true := hindent
      simp [hl, hindent, hindent', Bool.and_or_distrib_left]
    · rw [Bool.not_eq_true] at hindent
      have hindent' : (flag && (c == ' ' || c == '\t')) = false := hindent
      by_cases hstar : (flag && c == '*') = true <;>
        simp [hl, hindent, hindent', hstar, Bool.and_or_distrib_left]

/-- The flag of the loop at the offset `k`: it is the margin, unless a line terminator comes next. -/
def Flags (body : List Char) (k : Nat) (flag : Bool) : Prop :=
  flag = inMargin body k ∨ ∃ c ∈ body[k]?, isLineTerminator c = true

section Step

variable {body rest : List Char} {c : Char} {k : Nat} {flag : Bool}

/-- **What the flag stands for**: the loop passes over what is left out of the body. -/
theorem Flags.isDropped_eq (h : Flags body k flag) (hrest : body.drop k = c :: rest) :
    isDropped flag c rest = leftOut body k := by
  have hc := getElem?_of_drop hrest
  have hnext := getElem?_succ_of_drop hrest
  unfold isDropped leftOut
  by_cases hl : isLineTerminator c = true
  · rw [if_pos hl, hc]
    split
    next heq =>
      cases heq
      simp [hnext, breaksLine, isLineTerminator]
    next d hreturn heq =>
      cases heq
      have hindent : isIndent c = false := by
        by_contra hindent
        rw [isLineTerminator_of_isIndent (Bool.eq_true_of_not_eq_false hindent)] at hl
        cases hl
      have hstar : (c == '*') = false := beq_false_of_ne (by rintro rfl; cases hl)
      have hr : (c == '\r') = false := beq_false_of_ne (by rintro rfl; exact hreturn rfl)
      simp [hindent, hstar, hr, breaksLine, hl]
    next heq => cases heq
  · obtain rfl : flag = inMargin body k := by
      rcases h with h | ⟨d, hd, hl'⟩
      · exact h
      · cases hc.symm.trans hd
        exact absurd hl' hl
    rw [if_neg hl, hc]
    split
    next heq =>
      cases heq
      exact absurd rfl hl
    next d hreturn heq =>
      cases heq
      rfl
    next heq => cases heq

/-- **The step**: behind one more character the flag stands for the margin there. -/
theorem Flags.after (h : Flags body k flag) (hrest : body.drop k = c :: rest) :
    Flags body (k + 1) (flagAfter flag c) := by
  have hc := getElem?_of_drop hrest
  have hnext := getElem?_succ_of_drop hrest
  unfold Flags
  rw [inMargin_succ hrest, endsBreak_succ hrest, hnext]
  unfold flagAfter
  by_cases hl : isLineTerminator c = true
  · by_cases hpair : c = '\r' ∧ rest.head? = some '\n'
    · -- behind the carriage return of a pair no line starts, but its line feed is next
      exact Or.inr ⟨'\n', hpair.2, rfl⟩
    · refine Or.inl ?_
      have hbreak : (c == '\r' && rest.head? == some '\n') = false := by simpa using hpair
      rw [hl, hbreak]
      rfl
  · rw [Bool.not_eq_true] at hl
    refine Or.inl ?_
    rcases h with rfl | ⟨d, hd, hl'⟩
    · rw [hl]
      rfl
    · cases hc.symm.trans hd
      rw [hl] at hl'
      cases hl'

end Step

/-- The text of what is left of the body: each character that is not left out, with its offset. -/
def keptFrom (body : List Char) (base k : Nat) (rest : List Char) : List (Char × Nat) :=
  ((rest.zipIdx k).filter (!leftOut body ·.2)).map fun x => (asRead x.1, base + x.2)

theorem keptFrom_cons (body : List Char) (base k : Nat) (c : Char) (rest : List Char) :
    keptFrom body base k (c :: rest) =
      (if leftOut body k then [] else [(asRead c, base + k)]) ++ keptFrom body base (k + 1) rest := by
  unfold keptFrom
  rw [List.zipIdx_cons]
  by_cases h : leftOut body k = true <;> simp [h]

/-- The characters that end a comment take no part in its line breaks. -/
theorem isDropped_append (flag : Bool) (c : Char) (rest : List Char) :
    isDropped flag c (rest ++ ['*', '/']) = isDropped flag c rest := by
  cases rest <;> simp [isDropped, breaksLine]

theorem offset_after (p : Position) (c : Char) (rest : List Char) : (after p c rest).offset = p.offset + 1 := by
  unfold after
  split
  · rfl
  · split <;> rfl

/-- **The loop over the body** keeps what is not left out. -/
theorem map_collect_body {body : List Char} {base : Nat} (rest : List Char) {k : Nat} {p : Position} {flag : Bool}
    (hrest : body.drop k = rest) (hflag : Flags body k flag) (hp : p.offset = base + k) :
    (collect 3 (3 + body.length) (3 + k) p flag (rest ++ ['*', '/'])).1.map (Prod.map id Position.offset) =
      keptFrom body base k rest := by
  induction rest generalizing k p flag with
  | nil =>
      have hlast : ¬3 + k < 3 + body.length := by
        have := List.drop_eq_nil_iff.mp hrest
        omega
      have hlast' : ¬3 + k + 1 < 3 + body.length := by omega
      simp [collect, hlast, hlast', keptFrom]
  | cons c rest ih =>
      have hin : (3 ≤ 3 + k && 3 + k < 3 + body.length) = true := by
        have hk : k < body.length := by
          by_contra hge
          rw [List.drop_eq_nil_of_le (Nat.le_of_not_lt hge)] at hrest
          cases hrest
        simp only [Bool.and_eq_true, decide_eq_true_eq]
        omega
      have hp' : (after p c (rest ++ ['*', '/'])).offset = base + (k + 1) := by rw [offset_after, hp]; rfl
      rw [List.cons_append, collect_cons hin, isDropped_append, hflag.isDropped_eq hrest, keptFrom_cons,
        List.map_append]
      refine congrArg₂ (· ++ ·) ?_ (ih (drop_succ_of_drop hrest) (hflag.after hrest) hp')
      by_cases hout : leftOut body k = true
      · rw [if_pos hout, if_pos hout, List.map_nil]
      · rw [if_neg hout, if_neg hout, List.map_singleton, ← hp]
        rfl

/-- The three characters that open a comment are passed over. -/
theorem collect_opening (last : Nat) (p : Position) (rest : List Char) :
    collect 3 last 0 p false ('/' :: '*' :: '*' :: rest) =
      collect 3 last 3 ⟨p.line, p.column + 3, p.offset + 3⟩ false rest := by
  simp [collect, after, breaksLine, isLineTerminator]

/-- **What is kept of a comment**: between the delimiters every character in its order, with its offset, but
for what is left out. -/
theorem map_chars_ofComment {comment : String} {body : List Char} (start : Position)
    (h : comment.toList = ['/', '*', '*'] ++ body ++ ['*', '/']) :
    (ofComment comment start).chars.map (Prod.map id Position.offset) =
      (body.zipIdx.filter (!leftOut body ·.2)).map fun x => (asRead x.1, start.offset + 3 + x.2) := by
  have hfirst : openingLength 3 comment.toList = 3 := by rw [h]; rfl
  have hclosed : isClosed comment.toList = true := by
    rw [h, isClosed, List.reverse_append]
    rfl
  have hlength : comment.toList.length = 3 + body.length + 2 := by
    rw [h, List.length_append, List.length_append]
    rfl
  have hlast : (if openingLength 3 comment.toList + 2 ≤ comment.toList.length && isClosed comment.toList then
      comment.toList.length - 2 else comment.toList.length) = 3 + body.length := by
    rw [hfirst, hclosed, hlength, if_pos (by simp)]
    rfl
  have hchars : (ofComment comment start).chars =
      (collect 3 (3 + body.length) 3 ⟨start.line, start.column + 3, start.offset + 3⟩ false
        (body ++ ['*', '/'])).1 := by
    rw [← collect_opening]
    unfold ofComment
    dsimp only
    rw [hlast, hfirst, h]
    rfl
  rw [hchars]
  exact map_collect_body body rfl (Or.inl (inMargin_zero body).symm) rfl

-- a carriage return before its line feed, two spaces and the first star
example : (List.range 9).filter (leftOut "a\r\n  * *b".toList) = [1, 3, 4, 5] := by decide +kernel

/-! ## The places of what is kept -/

/-- The loop has counted `p` where the source has `q`, before the characters `rest`: they differ at most in the
column of a line feed that is next. -/
structure Beside (p q : Position) (rest : List Char) : Prop where
  line : p.line = q.line
  offset : p.offset = q.offset
  column : p.column = q.column ∨ rest.head? = some '\n'

/-- What no line feed follows has the place that the source has for it. -/
theorem Beside.eq {p q : Position} {c : Char} {rest : List Char} (h : Beside p q (c :: rest)) (hc : c ≠ '\n') :
    p = q := by
  have hcolumn : p.column = q.column := by
    rcases h.column with hcolumn | hfeed
    · exact hcolumn
    · exact absurd (by simpa using hfeed) hc
  cases p
  cases q
  cases h.line
  cases h.offset
  cases hcolumn
  rfl

/-- **The step.** What comes behind the comment is not seen, so its last character must not be a carriage
return. -/
theorem Beside.after {p q : Position} {c : Char} {rest tail : List Char} (h : Beside p q (c :: rest))
    (hlast : rest = [] → c ≠ '\r') : Beside (Region.after p c rest) (q.after c (rest ++ tail)) rest := by
  have hpair : (c == '\r' && (rest ++ tail).head? == some '\n') = (c == '\r' && rest.head? == some '\n') := by
    cases rest with
    | nil => rw [beq_false_of_ne (hlast rfl), Bool.false_and, Bool.false_and]
    | cons d rest => rfl
  unfold Region.after Position.after breaksLine
  rw [hpair]
  by_cases hbreak : (isLineTerminator c && !(c == '\r' && rest.head? == some '\n')) = true
  · rw [if_pos hbreak, if_pos hbreak]
    exact ⟨congrArg (· + 1) h.line, congrArg (· + 1) h.offset, Or.inl rfl⟩
  · rw [if_neg hbreak, if_neg hbreak]
    by_cases hl : isLineTerminator c = true
    · -- the carriage return of a pair: the columns part, and the line feed is next
      rw [if_pos hl]
      refine ⟨h.line, congrArg (· + 1) h.offset, Or.inr ?_⟩
      rw [hl, Bool.true_and, Bool.not_eq_true, Bool.not_eq_false', Bool.and_eq_true, beq_iff_eq,
        beq_iff_eq] at hbreak
      exact hbreak.2
    · rw [if_neg hl]
      obtain rfl : p = q := h.eq (by rintro rfl; exact hl rfl)
      exact ⟨rfl, rfl, Or.inl rfl⟩

/-- **The loop over a comment of the source** gives its characters their places. -/
theorem located_collect {text tail : List Char} {first last : Nat} (raw : List Char) {i : Nat} {p q : Position}
    {flag : Bool} (hq : q.Located text) (hdrop : text.drop q.offset = raw ++ tail) (h : Beside p q raw)
    (hlast : raw.getLast? ≠ some '\r') :
    ∀ x ∈ (collect first last i p flag raw).1, x.1 ≠ '\n' → x.2.Located text := by
  induction raw generalizing i p q flag with
  | nil => exact nofun
  | cons c rest ih =>
      have hlast' := getLast?_ne_of_cons hlast
      have hend : rest = [] → c ≠ '\r' := by
        rintro rfl rfl
        exact hlast rfl
      have hdrop' : text.drop (q.after c (rest ++ tail)).offset = rest ++ tail := by
        rw [Position.offset_after, ← List.drop_drop, hdrop]
        rfl
      have hnext (flag' : Bool) : ∀ x ∈ (collect first last (i + 1) (Region.after p c rest) flag' rest).1,
          x.1 ≠ '\n' → x.2.Located text :=
        ih (hq.after hdrop) hdrop' (h.after hend) hlast'
      by_cases hin : (first ≤ i && i < last) = true
      · rw [collect_cons hin]
        intro x hx hfeed
        rcases List.mem_append.mp hx with hx | hx
        · split at hx
          · cases hx
          · obtain rfl := List.mem_singleton.mp hx
            have hplace : p = q := h.eq (by rintro rfl; exact hfeed rfl)
            exact hplace ▸ hq
        · exact hnext _ x hx hfeed
      · rw [collect, if_neg hin]
        exact hnext flag

/-- **The places of a comment's text** are those of the source. -/
theorem located_ofComment {text : List Char} {c : Comment} (h : c.Located text)
    (hlast : c.text.toList.getLast? ≠ some '\r') :
    ∀ x ∈ (ofComment c.text c.span.start).chars, x.1 ≠ '\n' → x.2.Located text := by
  obtain ⟨tail, hdrop⟩ := h.exists_drop_eq_append
  exact located_collect c.text.toList h.span.1 hdrop ⟨rfl, rfl, Or.inl rfl⟩ hlast

end Doc.Region

/-! ## The line on which a comment ends -/

namespace Comment

/-- The line behind the characters, when they start on the line `line`. A line feed is taken together with the
carriage return before it. -/
def countLines (line : Nat) : List Char → Nat
  | [] => line
  | '\r' :: '\n' :: rest => countLines (line + 1) rest
  | c :: rest => countLines (if isLineTerminator c then line + 1 else line) rest

/-- The breaks of a comment's text, counted one by one. -/
theorem countLines_eq (line start : Nat) (raw : List Char) :
    countLines line raw = line + (LineMap.breakEnds start raw).length := by
  fun_induction LineMap.breakEnds start raw generalizing line with
  | case1 start => rfl
  | case2 start rest ih =>
      rw [countLines, ih, List.length_cons]
      omega
  | case3 start c rest hc hl ih =>
      rw [countLines, if_pos hl, ih, List.length_cons]
      · omega
      · exact hc
  | case4 start c rest hc hl ih =>
      rw [countLines, if_neg hl, ih]
      exact hc

/-- **The count of lines**, over characters of the source whose last line break does not go on behind them. -/
theorem line_position_add {text raw tail : List Char} {q : Position} (hq : q.Located text)
    (hdrop : text.drop q.offset = raw ++ tail) (hlast : raw.getLast? ≠ some '\r') :
    ((LineMap.ofChars text).position (q.offset + raw.length)).line = countLines q.line raw := by
  generalize hline : q.line = line
  fun_induction countLines line raw generalizing q with
  | case1 line =>
      rw [List.length_nil, Nat.add_zero, show (LineMap.ofChars text).position q.offset = q from hq, hline]
  | case2 line rest ih =>
      have hlast' := getLast?_ne_of_cons (getLast?_ne_of_cons hlast)
      have hreturn := hq.after hdrop
      have hdrop' : text.drop (q.offset + 1) = '\n' :: (rest ++ tail) := by
        rw [← List.drop_drop, hdrop]
        rfl
      have hfeed := hreturn.after (hdrop' ▸ congrArg text.drop (Position.offset_after q _ _))
      have hdrop'' : text.drop (q.offset + 2) = rest ++ tail := by
        rw [← List.drop_drop, hdrop]
        rfl
      have hrest := ih hfeed hdrop'' hlast' (by rw [← hline]; rfl)
      rw [Position.offset_after, Position.offset_after] at hrest
      rw [List.length_cons, List.length_cons, ← hrest]
      congr 2
      omega
  | case3 line c rest hc ih =>
      have hlast' := getLast?_ne_of_cons hlast
      -- the character is no carriage return of a pair, in the comment or across its end
      have hpair : (c == '\r' && (rest ++ tail).head? == some '\n') = false := by
        by_cases hr : c = '\r'
        · cases rest with
          | nil => exact absurd (congrArg some hr) hlast
          | cons d rest =>
              have hd : d ≠ '\n' := fun hd => hc rest hr (hd ▸ rfl)
              simp [hd]
        · rw [beq_false_of_ne hr, Bool.false_and]
      have hline' : (q.after c (rest ++ tail)).line = if isLineTerminator c then line + 1 else line := by
        unfold Position.after
        rw [hpair, Bool.not_false, Bool.and_true, ← hline]
        split <;> rfl
      have hdrop' : text.drop (q.after c (rest ++ tail)).offset = rest ++ tail := by
        rw [Position.offset_after, ← List.drop_drop, hdrop]
        rfl
      have hrest := ih (hq.after hdrop) hdrop' hlast' hline'
      rw [Position.offset_after] at hrest
      rw [List.length_cons, ← hrest]
      congr 2
      omega

/-- **The line on which a comment of the source ends**, counted in one pass over its text. -/
theorem lastLine_eq {text : List Char} {c : Comment} (h : c.Located text)
    (hlast : c.text.toList.getLast? ≠ some '\r') :
    c.lastLine = countLines c.span.line c.text.toList ∧
      c.lastLine = ((LineMap.ofChars text).position c.span.stop).line := by
  have hcount : c.lastLine = countLines c.span.line c.text.toList := (countLines_eq c.span.line 0 _).symm
  have hlength : c.text.toList.length = c.span.length := by
    have := h.span.2
    rw [h.verbatim, String.toList_ofList, Span.slice, List.length_take, List.length_drop]
    unfold Span.stop at this
    omega
  obtain ⟨tail, hdrop⟩ := h.exists_drop_eq_append
  have hstop := line_position_add h.span.1 hdrop hlast
  rw [hlength] at hstop
  exact ⟨hcount, hcount.trans hstop.symm⟩

end Comment

end EcmaScript
