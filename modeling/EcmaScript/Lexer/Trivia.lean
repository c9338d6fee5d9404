import EcmaScript.Lexer.Basic

/-!
# Blanks and comments

What stands between tokens: blanks, line breaks and comments, and the segments of a text that make
up neither a token nor a comment.

## Contents

* `Lexer.skipTrivia`: reads blanks, line breaks and comments, and notes the comments.
* `Lexer.skipFault?`: reads a segment that starts no token, and notes the problem.
* `Lexer.ofText`: the lexer at the start of a text, behind an interpreter line.
-/

namespace EcmaScript

namespace Lexer

/-! ## Comments -/

/-- Notes the text since `start` as a comment. -/
def pushComment (s : Lexer) (kind : CommentKind) (start : Position) : Lexer :=
  match s.cutSince start with
  | (text, t) =>
    let comment : Comment := ⟨kind, String.ofList text, Span.between start s.position.offset⟩
    { t with comments := t.comments.push comment }

@[simp] theorem rest_pushComment (s : Lexer) (k : CommentKind) (p : Position) :
    (s.pushComment k p).rest = s.rest := s.rest_cutSince p

/-- Reads to the end of the line. -/
def skipLine (s : Lexer) : Lexer := s.skipWhile fun c => !isLineTerminator c

/-- Reads a comment that ends with its line; its first character is no line break. -/
def lineComment (s : Lexer) (kind : CommentKind) : Lexer :=
  s.advance.skipLine.pushComment kind s.position

/-- Reads up to the end of a block comment, and says whether a line break was on the way. -/
def skipBlockBody (s : Lexer) (newline : Bool) : Bool × Lexer :=
  match _h : s.rest with
  | [] => (newline, s)
  | c :: rest =>
    if c == '*' && rest.head? == some '/' then (newline, s)
    else skipBlockBody s.advance (newline || isLineTerminator c)
termination_by s.rest.length
decreasing_by simp [length_rest_advance, _h]

/-- The kind of a block comment with the given text. -/
def blockKind (text : List Char) : CommentKind :=
  if text.length ≤ 4 then .block
  else match text with
    | _ :: _ :: '*' :: _ => .doc
    | _ :: _ :: '!' :: _ => .important
    | _ => .block

/-- Reads a block comment, and says whether it holds a line break. An unterminated comment reaches
to the end of the text and is not noted as a comment. -/
def blockComment (s : Lexer) : Bool × Lexer :=
  match s.advance.advance.skipBlockBody false with
  | (newline, body) =>
    match body.rest with
    | [] => (newline, body.error body.position .unterminatedComment)
    | _ =>
      let done := body.advance.advance
      (newline, done.pushComment (blockKind (done.textSince s.position)) s.position)

theorem length_rest_lineComment_le (s : Lexer) (k : CommentKind) :
    (s.lineComment k).rest.length ≤ s.rest.length - 1 := by
  simp only [lineComment, skipLine, rest_pushComment]
  exact Nat.le_trans (length_rest_skipWhile_le _ _) (Nat.le_of_eq s.length_rest_advance)

theorem length_rest_skipBlockBody_le (s : Lexer) (newline : Bool) :
    (s.skipBlockBody newline).2.rest.length ≤ s.rest.length := by
  fun_induction skipBlockBody s newline with
  | case1 => simp
  | case2 => simp
  | case3 s _ _ _ _ _ ih => exact Nat.le_trans ih s.length_rest_advance_le

theorem length_rest_blockComment_le (s : Lexer) :
    s.blockComment.2.rest.length ≤ s.rest.length - 1 := by
  have h := length_rest_skipBlockBody_le s.advance.advance false
  simp only [length_rest_advance] at h
  unfold blockComment
  split
  next newline body heq =>
    rw [heq] at h
    split
    · simp only [rest_error] at h ⊢
      omega
    · simp only [rest_pushComment, length_rest_advance] at h ⊢
      omega

/-! ## Between two tokens -/

/-- Reads blanks, line breaks and comments; says whether a line break was among them, or `newline`
holds. -/
def skipTrivia (s : Lexer) (newline : Bool) : Bool × Lexer :=
  match _h : s.rest with
  | [] => (newline, s)
  | c :: rest =>
    if isLineTerminator c then skipTrivia { s.advance with atLineStart := true } true
    else if isBlank c then skipTrivia s.advance newline
    else if c == '/' && rest.head? == some '/' then skipTrivia (s.lineComment .line) newline
    else if c == '/' && rest.head? == some '*' then
      if s.blockComment.1 then skipTrivia { s.blockComment.2 with atLineStart := true } true
      else skipTrivia s.blockComment.2 newline
    else if s.startsWith ['<', '!', '-', '-'] ||
        (s.atLineStart && s.startsWith ['-', '-', '>']) then
      skipTrivia ((s.warning s.position .htmlComment).lineComment .html) newline
    else (newline, s)
termination_by s.rest.length
decreasing_by
  all_goals
    have hs : s.rest.length = rest.length + 1 := by rw [_h]; rfl
  · simp [length_rest_advance, hs]
  · simp [length_rest_advance, hs]
  · have := s.length_rest_lineComment_le .line; omega
  · have := s.length_rest_blockComment_le; omega
  · have := s.length_rest_blockComment_le; omega
  · have := (s.warning s.position .htmlComment).length_rest_lineComment_le .html
    simp only [rest_warning] at this
    omega

theorem length_rest_skipTrivia_le (s : Lexer) (newline : Bool) :
    (s.skipTrivia newline).2.rest.length ≤ s.rest.length := by
  fun_induction skipTrivia s newline with
  | case1 => simp
  | case2 s _ _ _ _ _ ih => exact Nat.le_trans ih s.length_rest_advance_le
  | case3 s _ _ _ _ _ _ ih => exact Nat.le_trans ih s.length_rest_advance_le
  | case4 s _ _ _ _ _ _ _ ih =>
    exact Nat.le_trans ih (Nat.le_trans (s.length_rest_lineComment_le .line) (Nat.sub_le _ _))
  | case5 s _ _ _ _ _ _ _ _ _ ih =>
    exact Nat.le_trans ih (Nat.le_trans s.length_rest_blockComment_le (Nat.sub_le _ _))
  | case6 s _ _ _ _ _ _ _ _ _ ih =>
    exact Nat.le_trans ih (Nat.le_trans s.length_rest_blockComment_le (Nat.sub_le _ _))
  | case7 s _ _ _ _ _ _ _ _ _ ih =>
    exact Nat.le_trans ih (Nat.le_trans
      ((s.warning s.position .htmlComment).length_rest_lineComment_le .html) (Nat.sub_le _ _))
  | case8 => simp

/-- Whether some token starts with the character. -/
def startsToken (c : Char) : Bool :=
  "()\x7b\x7d[];,:~.?=!+-*/%<>&|^\"'\\\x60#".toList.contains c || c.isDigit || isNameStart c

/-- Reads a segment that is neither a token nor a comment: a shebang line after the start of the text,
a number sign without a name, a character that starts no token. -/
def skipFault? (s : Lexer) : Option Lexer :=
  match s.rest with
  | [] => none
  | '#' :: rest =>
    match rest with
    | '!' :: _ =>
      some { (s.error s.position .misplacedShebang).advance.skipLine with atLineStart := false }
    | c :: _ =>
      if isNameStart c || c == '\\' then none
      else some { (s.error s.position .strayHash).advance with atLineStart := false }
    | [] => some { (s.error s.position .strayHash).advance with atLineStart := false }
  | c :: _ =>
    if startsToken c then none
    else some { (s.error s.position (.badStart c)).advance with atLineStart := false }

theorem length_rest_skipFault?_lt {s t : Lexer} (h : s.skipFault? = some t) :
    t.rest.length < s.rest.length := by
  unfold skipFault? at h
  split at h
  · simp at h
  · rename_i rest hs
    have hl : s.rest.length = rest.length + 1 := by rw [hs]; rfl
    split at h
    · injection h with h
      subst h
      have := length_rest_skipWhile_le (fun c => !isLineTerminator c)
        (s.error s.position .misplacedShebang).advance
      simp only [length_rest_advance, rest_error] at this
      simp only [skipLine]
      omega
    · split at h
      · simp at h
      · injection h with h
        subst h
        simp only [length_rest_advance, rest_error]
        omega
    · injection h with h
      subst h
      simp only [length_rest_advance, rest_error]
      omega
  · rename_i c rest _ hs
    have hl : s.rest.length = rest.length + 1 := by rw [hs]; rfl
    split at h
    · simp at h
    · injection h with h
      subst h
      simp only [length_rest_advance, rest_error]
      omega

/-! ## The start of a text -/

/-- The lexer at the start of a text, behind an interpreter line if the text starts with one. -/
def ofChars (text : List Char) (strict : Bool) : Lexer :=
  let s : Lexer := ⟨text, strict, text, .start, true, #[], #[], #[], false⟩
  if s.startsWith ['#', '!'] then s.lineComment .shebang else s

/-- The lexer at the start of a text, behind an interpreter line if the text starts with one. -/
def ofText (text : String) (strict : Bool) : Lexer := ofChars text.toList strict

end Lexer

end EcmaScript
