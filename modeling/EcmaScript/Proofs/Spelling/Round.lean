import EcmaScript.Proofs.Spelling.Token

/-!
# One round of a loop

The readers of strings and of templates are loops over the characters of a literal. Each way a round can go is said
here once, as an equation for the text that it goes this way on, so that what is proved about a literal follows
its text and not the conditions of the loop.

## Contents

* `Lexer.stringBody_quote`, `Lexer.stringBody_escape` and so on: the rounds for a string.
* `Lexer.templateBody_tick`, `Lexer.templateBody_escape` and so on: the rounds for a template.
* `Lexer.nextToken_string`, `Lexer.nextToken_template`: the token that the reader is called for.
-/

namespace EcmaScript

namespace Lexer

variable {s : Lexer} {c quote : Char} {rest : List Char}

/-- A quote that a string literal may have. -/
def IsQuote (quote : Char) : Prop := quote = '"' ∨ quote = '\''

/-! ## Strings -/

section

variable (start : Position) (read : List Char) (continued : Bool)

/-- The loop, for a text that goes on. -/
theorem stringBody_cons (hs : s.rest = c :: rest) :
    stringBody quote start s read continued =
      if c == '\n' || c == '\r' then (read, continued, s.error start .unterminatedString)
      else if c == quote then (read, continued, s.advance)
      else if c == '\\' then
        match s.advance.rest with
        | [] => (read, continued, s.advance.error start .unterminatedString)
        | e :: _ =>
          if isLineTerminator e then stringBody quote start s.advance.skipLineBreak read true
          else
            stringBody quote start (s.advance.stringEscape start e).2 ((s.advance.stringEscape start e).1 ++ read)
              continued
      else if c == '\u2028' || c == '\u2029' then
        stringBody quote start (s.advance.record .unescapedUnicodeLineOrParagraphSep start) (c :: read) continued
      else stringBody quote start s.advance (c :: read) continued := by
  rw [stringBody]
  split
  next hn => cases hs.symm.trans hn
  next heq =>
    cases hs.symm.trans heq
    split
    · rfl
    · split
      · rfl
      · split
        · split
          next hnext => rw [hnext]
          next hnext => rw [hnext]
        · rfl

/-- The end of a line is no part of a string. -/
theorem stringBody_break (hs : s.rest = c :: rest) (hline : c = '\n' ∨ c = '\r') :
    stringBody quote start s read continued = (read, continued, s.error start .unterminatedString) := by
  rw [stringBody_cons start read continued hs, if_pos (by simpa using hline)]

theorem stringBody_quote (hq : IsQuote quote) (hs : s.rest = quote :: rest) :
    stringBody quote start s read continued = (read, continued, s.advance) := by
  rw [stringBody_cons start read continued hs, if_neg (by obtain rfl | rfl := hq <;> decide), if_pos (by simp)]

/-- Behind a backslash a line goes on in the next one. -/
theorem stringBody_continuation (hq : IsQuote quote) (hs : s.rest = '\\' :: c :: rest)
    (hline : isLineTerminator c = true) :
    stringBody quote start s read continued = stringBody quote start s.advance.skipLineBreak read true := by
  rw [stringBody_cons start read continued hs, if_neg (by decide), if_neg (by obtain rfl | rfl := hq <;> decide),
    if_pos (by decide), rest_advance hs]
  exact if_pos hline

theorem stringBody_escape (hq : IsQuote quote) (hs : s.rest = '\\' :: c :: rest) (hline : isLineTerminator c = false) :
    stringBody quote start s read continued =
      stringBody quote start (s.advance.stringEscape start c).2 ((s.advance.stringEscape start c).1 ++ read)
        continued := by
  rw [stringBody_cons start read continued hs, if_neg (by decide), if_neg (by obtain rfl | rfl := hq <;> decide),
    if_pos (by decide), rest_advance hs]
  exact if_neg (by simp [hline])

/-- Any other character stands for itself; a separator of lines or paragraphs is a feature. -/
theorem stringBody_plain (hs : s.rest = c :: rest) (hline : ¬(c = '\n' ∨ c = '\r')) (hquote : c ≠ quote)
    (hescape : c ≠ '\\') :
    stringBody quote start s read continued =
      stringBody quote start
        (if c == '\u2028' || c == '\u2029' then s.advance.record .unescapedUnicodeLineOrParagraphSep start
          else s.advance)
        (c :: read) continued := by
  rw [stringBody_cons start read continued hs, if_neg (by simpa using hline), if_neg (by simpa using hquote),
    if_neg (by simpa using hescape)]
  split <;> rfl

end

/-! ## Templates -/

section

variable (start : Position) (d : TemplateDraft)

/-- The loop, for a text that goes on. -/
theorem templateBody_cons (hs : s.rest = c :: rest) :
    templateBody start s d =
      if c == '\x60' then (d, true, s.advance)
      else if c == '$' && rest.head? == some '\x7b' then (d, false, s.advance.advance)
      else if c == '\r' then templateBody start s.skipLineBreak (d.push '\n')
      else if c == '\\' then
        match s.advance.rest with
        | [] => templateBody start s.advance (d.write ['\\'])
        | e :: _ =>
          if isLineTerminator e then
            templateBody start s.advance.skipLineBreak { d.write ['\\', '\n'] with continued := true }
          else
            templateBody start (s.advance.templateEscape s.position e (d.write ['\\'])).2
              (s.advance.templateEscape s.position e (d.write ['\\'])).1
      else templateBody start s.advance (d.push c) := by
  rw [templateBody]
  split
  next hn => cases hs.symm.trans hn
  next heq =>
    cases hs.symm.trans heq
    rfl

theorem templateBody_tick (hs : s.rest = '\x60' :: rest) : templateBody start s d = (d, true, s.advance) := by
  rw [templateBody_cons start d hs, if_pos (by decide)]

theorem templateBody_open (hs : s.rest = '$' :: '\x7b' :: rest) :
    templateBody start s d = (d, false, s.advance.advance) := by
  rw [templateBody_cons start d hs, if_neg (by decide), if_pos (by simp)]

theorem templateBody_continuation (hs : s.rest = '\\' :: c :: rest) (hline : isLineTerminator c = true) :
    templateBody start s d =
      templateBody start s.advance.skipLineBreak { d.write ['\\', '\n'] with continued := true } := by
  rw [templateBody_cons start d hs, if_neg (by decide), if_neg (by simp), if_neg (by decide), if_pos (by decide),
    rest_advance hs]
  exact if_pos hline

theorem templateBody_escape (hs : s.rest = '\\' :: c :: rest) (hline : isLineTerminator c = false) :
    templateBody start s d =
      templateBody start (s.advance.templateEscape s.position c (d.write ['\\'])).2
        (s.advance.templateEscape s.position c (d.write ['\\'])).1 := by
  rw [templateBody_cons start d hs, if_neg (by decide), if_neg (by simp), if_neg (by decide), if_pos (by decide),
    rest_advance hs]
  exact if_neg (by simp [hline])

theorem templateBody_plain (hs : s.rest = c :: rest) (htick : c ≠ '\x60')
    (hopen : c = '$' → rest.head? ≠ some '\x7b') (hreturn : c ≠ '\r') (hescape : c ≠ '\\') :
    templateBody start s d = templateBody start s.advance (d.push c) := by
  rw [templateBody_cons start d hs, if_neg (by simpa using htick), if_neg (by simpa using hopen),
    if_neg (by simpa using hreturn), if_neg (by simpa using hescape)]

end

/-! ## The token -/

theorem nextToken_string (hq : IsQuote quote) (hs : s.rest = quote :: rest) :
    s.nextToken =
      let answer := ({ s with atLineStart := false } : Lexer).advance.stringLiteral quote s.position
      (answer.2.finish (.string answer.1) s.position false false, answer.2) := by
  have hplain : startsPlainly quote = true := by obtain rfl | rfl := hq <;> decide
  have hscan : scan { s with atLineStart := false } quote =
      let answer := ({ s with atLineStart := false } : Lexer).advance.stringLiteral quote s.position
      ((.string answer.1, false), answer.2) := by
    unfold scan
    obtain rfl | rfl := hq <;> rfl
  rw [nextToken_eq_scan hs hplain, hscan]

theorem nextToken_template (hs : s.rest = '\x60' :: rest) :
    s.nextToken =
      let answer := ({ s with atLineStart := false } : Lexer).advance.templatePart s.position
      (answer.2.finish (.template answer.1) s.position false false, answer.2) := by
  have hscan : scan { s with atLineStart := false } '\x60' =
      let answer := ({ s with atLineStart := false } : Lexer).advance.templatePart s.position
      ((.template answer.1, false), answer.2) := by
    unfold scan
    rfl
  rw [nextToken_eq_scan hs (by decide), hscan]

end Lexer

end EcmaScript
