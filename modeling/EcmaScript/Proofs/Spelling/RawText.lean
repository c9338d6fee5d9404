import EcmaScript.Proofs.LexerSession
import EcmaScript.Proofs.Spelling.Token

/-!
# The raw text of a template

Beside what a template means the lexer keeps what it was written as, with a line feed for each line that ends in
a carriage return. It puts the raw text together while it decodes the template, one escape at a time, and a line
that is continued behind a backslash has a reader of its own: there a separator of lines or of paragraphs becomes
a line feed, too, although it is kept where no backslash stands in front of it.

## Contents

* `normalizeBreaks`: what the raw text of a template makes of its text.
* `lineFeedContinuations`, `continuesAtSeparator`: what the reader makes of continued lines.
* `Lexer.exists_templateBody`: the raw text of a piece of a template.
* `Session.raw_serveAll`: the same of a lexer in use.
-/

namespace EcmaScript

/-! ## Line breaks in a raw text -/

/-- Whether the character separates lines or paragraphs. -/
def isSeparator (c : Char) : Bool := c == '\u2028' || c == '\u2029'

theorem isLineTerminator_eq (c : Char) : isLineTerminator c = (c == '\n' || c == '\r' || isSeparator c) :=
  Bool.or_assoc _ _ _

/-- The text with a line feed for each carriage return, which takes a line feed behind it along. -/
def normalizeBreaks : List Char → List Char
  | [] => []
  | '\r' :: '\n' :: rest => '\n' :: normalizeBreaks rest
  | c :: rest => (if c == '\r' then '\n' else c) :: normalizeBreaks rest

/-- The text with a line feed for each separator that a line is continued at. -/
def lineFeedContinuations : List Char → List Char
  | [] => []
  | '\\' :: c :: rest => '\\' :: (if isSeparator c then '\n' else c) :: lineFeedContinuations rest
  | c :: rest => c :: lineFeedContinuations rest

/-- Whether a line is continued at a separator: an escape starts with it. -/
def continuesAtSeparator : List Char → Bool
  | [] => false
  | '\\' :: c :: rest => isSeparator c || continuesAtSeparator rest
  | _ :: rest => continuesAtSeparator rest

section

variable {c : Char} {xs ys : List Char}

theorem normalizeBreaks_cons (hc : c ≠ '\r') (xs : List Char) :
    normalizeBreaks (c :: xs) = c :: normalizeBreaks xs := by
  rw [normalizeBreaks]
  · rw [if_neg (by simpa using hc)]
  · rintro _ rfl
    exact absurd rfl hc

theorem normalizeBreaks_return (h : xs.head? ≠ some '\n') :
    normalizeBreaks ('\r' :: xs) = '\n' :: normalizeBreaks xs := by
  rw [normalizeBreaks]
  · rfl
  · rintro _ _ rfl
    exact h rfl

theorem normalizeBreaks_append (h : ∀ c ∈ xs, c ≠ '\r') (ys : List Char) :
    normalizeBreaks (xs ++ ys) = xs ++ normalizeBreaks ys := by
  induction xs with
  | nil => rfl
  | cons c xs ih =>
      obtain ⟨hc, hxs⟩ := List.forall_mem_cons.mp h
      rw [List.cons_append, normalizeBreaks_cons hc, ih hxs]
      rfl

theorem lineFeedContinuations_cons (hc : c ≠ '\\') (xs : List Char) :
    lineFeedContinuations (c :: xs) = c :: lineFeedContinuations xs := by
  rw [lineFeedContinuations]
  rintro _ _ rfl
  exact absurd rfl hc

theorem lineFeedContinuations_append (h : ∀ c ∈ xs, c ≠ '\\') (ys : List Char) :
    lineFeedContinuations (xs ++ ys) = xs ++ lineFeedContinuations ys := by
  induction xs with
  | nil => rfl
  | cons c xs ih =>
      obtain ⟨hc, hxs⟩ := List.forall_mem_cons.mp h
      rw [List.cons_append, lineFeedContinuations_cons hc, ih hxs]
      rfl

theorem head?_lineFeedContinuations (xs : List Char) : (lineFeedContinuations xs).head? = xs.head? := by
  fun_cases lineFeedContinuations xs <;> rfl

/-- Without such a line nothing is changed. -/
theorem lineFeedContinuations_eq (h : continuesAtSeparator xs = false) : lineFeedContinuations xs = xs := by
  fun_induction continuesAtSeparator xs with
  | case1 => rfl
  | case2 c rest ih =>
      obtain ⟨hc, hrest⟩ := Bool.or_eq_false_iff.mp h
      rw [lineFeedContinuations, hc, ih hrest]
      rfl
  | case3 c rest hne ih => rw [lineFeedContinuations, ih h]; exact hne

/-- Normalizing the breaks keeps all separators. -/
theorem countP_normalizeBreaks (xs : List Char) :
    (normalizeBreaks xs).countP isSeparator = xs.countP isSeparator := by
  fun_induction normalizeBreaks xs with
  | case1 => rfl
  | case2 rest ih =>
      rw [List.countP_cons_of_neg (by decide), List.countP_cons_of_neg (by decide),
        List.countP_cons_of_neg (by decide), ih]
  | case3 c rest _ ih =>
      have hc : isSeparator (if c == '\r' then '\n' else c) = isSeparator c := by
        split
        next h => rw [eq_of_beq h]; rfl
        next => rfl
      rw [List.countP_cons, List.countP_cons, hc, ih]

/-- A separator that a line is continued at is lost. -/
theorem countP_lineFeedContinuations_le (xs : List Char) :
    (lineFeedContinuations xs).countP isSeparator + (continuesAtSeparator xs).toNat ≤ xs.countP isSeparator := by
  have hbackslash : isSeparator '\\' = false := by decide
  have hfeed : isSeparator '\n' = false := by decide
  fun_induction lineFeedContinuations xs with
  | case1 => exact Nat.le_refl _
  | case2 c rest ih =>
      have hone := Bool.toNat_le (continuesAtSeparator rest)
      rw [continuesAtSeparator]
      cases hc : isSeparator c
      · simpa [hc, hbackslash] using ih
      · simp only [List.countP_cons, hc, hbackslash, hfeed, Bool.true_or, Bool.toNat_true, if_true,
          Bool.false_eq_true, if_false]
        omega
  | case3 c rest hne ih =>
      rw [continuesAtSeparator]
      · simp only [List.countP_cons]
        omega
      · exact hne

/-! ### What one round of the reader writes down -/

theorem normalizeBreaks_continued_plain (hreturn : c ≠ '\r') (hescape : c ≠ '\\') (xs : List Char) :
    normalizeBreaks (lineFeedContinuations (c :: xs)) = c :: normalizeBreaks (lineFeedContinuations xs) := by
  rw [lineFeedContinuations_cons hescape, normalizeBreaks_cons hreturn]

theorem normalizeBreaks_continued_return (h : xs.head? ≠ some '\n') :
    normalizeBreaks (lineFeedContinuations ('\r' :: xs)) = '\n' :: normalizeBreaks (lineFeedContinuations xs) := by
  rw [lineFeedContinuations_cons (by decide), normalizeBreaks_return (by rwa [head?_lineFeedContinuations])]

theorem normalizeBreaks_continued_returnFeed (xs : List Char) :
    normalizeBreaks (lineFeedContinuations ('\r' :: '\n' :: xs)) =
      '\n' :: normalizeBreaks (lineFeedContinuations xs) := by
  rw [lineFeedContinuations_cons (by decide), lineFeedContinuations_cons (by decide), normalizeBreaks]

theorem normalizeBreaks_continued_break (hline : isLineTerminator c = true) (h : c = '\r' → xs.head? ≠ some '\n') :
    normalizeBreaks (lineFeedContinuations ('\\' :: c :: xs)) =
      '\\' :: '\n' :: normalizeBreaks (lineFeedContinuations xs) := by
  rw [lineFeedContinuations, normalizeBreaks_cons (by decide)]
  refine congrArg _ ?_
  by_cases hreturn : c = '\r'
  · subst hreturn
    exact normalizeBreaks_return (by rw [head?_lineFeedContinuations]; exact h rfl)
  · have hfeed : (if isSeparator c then '\n' else c) = '\n' := by
      rw [isLineTerminator_eq, beq_eq_false_iff_ne.mpr hreturn, Bool.or_false, Bool.or_eq_true] at hline
      split
      next => rfl
      next hsep => exact eq_of_beq (hline.resolve_right hsep)
    rw [hfeed, normalizeBreaks_cons (by decide)]

theorem normalizeBreaks_continued_breakFeed (xs : List Char) :
    normalizeBreaks (lineFeedContinuations ('\\' :: '\r' :: '\n' :: xs)) =
      '\\' :: '\n' :: normalizeBreaks (lineFeedContinuations xs) := by
  rw [lineFeedContinuations, if_neg (by decide), lineFeedContinuations_cons (by decide),
    normalizeBreaks_cons (by decide), normalizeBreaks]

theorem normalizeBreaks_continued_escape (hline : isLineTerminator c = false)
    (h : ∀ e ∈ xs, Lexer.isEscapeBody e = true) (ys : List Char) :
    normalizeBreaks (lineFeedContinuations ('\\' :: c :: (xs ++ ys))) =
      '\\' :: c :: (xs ++ normalizeBreaks (lineFeedContinuations ys)) := by
  rw [isLineTerminator_eq, Bool.or_eq_false_iff, Bool.or_eq_false_iff] at hline
  obtain ⟨⟨-, hreturn⟩, hsep⟩ := hline
  have hne (x : Char) (hx : Lexer.isEscapeBody x = false) : ∀ e ∈ xs, e ≠ x := by
    rintro e he rfl
    cases (h e he).symm.trans hx
  rw [lineFeedContinuations, hsep, if_neg Bool.false_ne_true, normalizeBreaks_cons (by decide),
    normalizeBreaks_cons (by simpa using hreturn), lineFeedContinuations_append (hne '\\' (by decide)),
    normalizeBreaks_append (hne '\r' (by decide))]

/-- **The raw text is the normalized text if and only if no line is continued at a separator.** -/
theorem normalizeBreaks_lineFeedContinuations_eq_iff (xs : List Char) :
    normalizeBreaks (lineFeedContinuations xs) = normalizeBreaks xs ↔ continuesAtSeparator xs = false := by
  refine ⟨fun h => ?_, fun h => by rw [lineFeedContinuations_eq h]⟩
  refine Bool.eq_false_iff.mpr fun hcontinues => ?_
  have hle := countP_lineFeedContinuations_le xs
  have hcount := congrArg (List.countP isSeparator) h
  rw [countP_normalizeBreaks, countP_normalizeBreaks] at hcount
  rw [hcontinues, Bool.toNat_true] at hle
  omega

end

/-- What ends a piece of a template. -/
def TemplatePart.closing (part : TemplatePart) : List Char := if part.tail then ['\x60'] else ['$', '\x7b']

namespace Lexer

variable {r s : Lexer} {c : Char} {rest : List Char} {place start : Position} {d : TemplateDraft}

/-! ## Reading a piece -/

/-- A line break is a carriage return with its line feed, or one character. -/
theorem exists_skipLineBreak (hs : s.rest = c :: rest) :
    (c = '\r' ∧ rest = '\n' :: s.skipLineBreak.rest) ∨
      (c = '\r' → rest.head? ≠ some '\n') ∧ s.skipLineBreak.rest = rest := by
  unfold skipLineBreak
  split
  next tail heq =>
    cases hs.symm.trans heq
    exact .inl ⟨rfl, by rw [rest_advance (rest_advance hs)]⟩
  next hno =>
    refine .inr ⟨?_, rest_advance hs⟩
    rintro rfl hhead
    obtain ⟨tail, rfl⟩ := List.head?_eq_some_iff.mp hhead
    exact hno tail hs

/-- An escape is written down as it stands there. -/
theorem exists_raw_templateEscape (hs : s.rest = c :: rest) (place : Position) (d : TemplateDraft) :
    ∃ read, (∀ e ∈ read, isEscapeBody e = true) ∧ rest = read ++ (s.templateEscape place c d).2.rest ∧
      (s.templateEscape place c d).1.raw = read.reverse ++ c :: d.raw := by
  have hrest : s.advance.rest = rest := rest_advance hs
  obtain ⟨byte, hbyte, hbyteAll, hbyteRead⟩ := writes_hexDigits 2 s.advance 0 (d.write [c])
  obtain ⟨code, hcode, hcodeAll, hcodeRead⟩ := s.advance.writes_unicodeEscape (d.write [c])
  have hnone : ∃ read : List Char, (∀ e ∈ read, isEscapeBody e = true) ∧ rest = read ++ s.advance.rest ∧
      c :: d.raw = read.reverse ++ c :: d.raw := ⟨[], nofun, hrest.symm, rfl⟩
  rw [hrest] at hbyte hcode
  generalize hexDigits 2 s.advance 0 = byteAnswer at hbyte hbyteRead
  generalize s.advance.unicodeEscape = codeAnswer at hcode hcodeRead
  obtain ⟨_, _⟩ := byteAnswer
  obtain ⟨_, _⟩ := codeAnswer
  simp only [templateEscape, hbyteRead, hcodeRead]
  split
  · exact hnone
  · split
    · exact hnone
    · split
      · exact hnone
      · split
        · exact hnone
        · split
          · split
            next heq => cases heq; exact ⟨byte, hbyteAll, hbyte, rfl⟩
            next heq => cases heq; exact ⟨byte, hbyteAll, hbyte, rfl⟩
          · split
            · split
              next heq => cases heq; exact ⟨code, hcodeAll, hcode, rfl⟩
              next heq => cases heq; exact ⟨code, hcodeAll, hcode, rfl⟩
            · split
              · exact hnone
              · exact hnone

theorem head?_ne_of_append {xs ys : List Char} (h : (xs ++ ys).head? ≠ some c) : xs.head? ≠ some c := by
  cases xs with
  | nil => nofun
  | cons => exact h

/-- **What is read up to an end of the piece** is written down with its breaks as line feeds. -/
theorem exists_raw_templateBody (hg : Grows r s) (start : Position) (d : TemplateDraft)
    (hf : ∀ x ∈ r.reportedSince (templateBody start s d).2.2, x.problem ≠ .unterminatedTemplate) :
    ∃ body, s.rest = body ++ ((if (templateBody start s d).2.1 then ['\x60'] else ['$', '\x7b']) ++
        (templateBody start s d).2.2.rest) ∧
      (templateBody start s d).1.raw = (normalizeBreaks (lineFeedContinuations body)).reverse ++ d.raw := by
  fun_induction templateBody start s d with
  | case1 s d hs => exact absurd rfl (hf _ (hg.mem_reportedSince_error _ _))
  | case2 s d c rest hs hc =>
      cases eq_of_beq hc
      exact ⟨[], by rw [rest_advance hs]; exact hs, rfl⟩
  | case3 s d c rest hs hc hopen =>
      obtain ⟨hdollar, hbrace⟩ := Bool.and_eq_true_iff.mp hopen
      cases eq_of_beq hdollar
      obtain ⟨tail, rfl⟩ := List.head?_eq_some_iff.mp (eq_of_beq hbrace)
      exact ⟨[], by rw [rest_advance (rest_advance hs)]; exact hs, rfl⟩
  | case4 s d c rest hs hc hopen hbreak ih =>
      cases eq_of_beq hbreak
      obtain ⟨body, hbody, hraw⟩ := ih hg.skipLineBreak hf
      obtain ⟨-, hfeed⟩ | ⟨hfeed, hskip⟩ := exists_skipLineBreak hs
      · refine ⟨'\r' :: '\n' :: body, by rw [hs, hfeed, hbody]; rfl, ?_⟩
        rw [hraw, normalizeBreaks_continued_returnFeed]
        simp [TemplateDraft.push]
      · rw [hskip] at hbody
        refine ⟨'\r' :: body, by rw [hs, hbody]; rfl, ?_⟩
        rw [hraw, normalizeBreaks_continued_return (head?_ne_of_append (hbody ▸ hfeed rfl))]
        simp [TemplateDraft.push]
  | case5 s d c rest hs hc hopen hbreak hescape hnone ih =>
      -- the piece does not end at the end of the text
      obtain ⟨body, hbody, -⟩ := ih hg.advance hf
      have hnil := List.append_eq_nil_iff.mp (List.append_eq_nil_iff.mp (hbody.symm.trans hnone)).2
      exact absurd hnil.1 (by split <;> exact List.cons_ne_nil _ _)
  | case6 s d c rest hs hc hopen hbreak hescape e rest' hnext hline ih =>
      cases eq_of_beq hescape
      have hrest : rest = e :: rest' := (rest_advance hs).symm.trans hnext
      obtain ⟨body, hbody, hraw⟩ := ih hg.advance.skipLineBreak hf
      obtain ⟨rfl, hfeed⟩ | ⟨hfeed, hskip⟩ := exists_skipLineBreak hnext
      · refine ⟨'\\' :: '\r' :: '\n' :: body, by rw [hs, hrest, hfeed, hbody]; rfl, ?_⟩
        rw [hraw, normalizeBreaks_continued_breakFeed]
        simp [TemplateDraft.write]
      · rw [hskip] at hbody
        refine ⟨'\\' :: e :: body, by rw [hs, hrest, hbody]; rfl, ?_⟩
        rw [hraw, normalizeBreaks_continued_break hline fun he => head?_ne_of_append (hbody ▸ hfeed he)]
        simp [TemplateDraft.write]
  | case7 s d c rest hs hc hopen hbreak hescape e rest' hnext hline ih =>
      cases eq_of_beq hescape
      have hrest : rest = e :: rest' := (rest_advance hs).symm.trans hnext
      obtain ⟨body, hbody, hraw⟩ := ih (hg.advance.templateEscape _ _ _) hf
      obtain ⟨read, hread, hafter, hwritten⟩ := exists_raw_templateEscape hnext s.position (d.write ['\\'])
      refine ⟨'\\' :: e :: (read ++ body), ?_, ?_⟩
      · rw [hs, hrest, hafter, hbody]
        simp
      · rw [hraw, hwritten, normalizeBreaks_continued_escape (Bool.eq_false_iff.mpr hline) hread]
        simp [TemplateDraft.write]
  | case8 s d c rest hs hc hopen hbreak hescape ih =>
      obtain ⟨body, hbody, hraw⟩ := ih hg.advance hf
      rw [rest_advance hs] at hbody
      refine ⟨c :: body, by rw [hs, hbody]; rfl, ?_⟩
      rw [hraw, normalizeBreaks_continued_plain (by simpa using hbreak) (by simpa using hescape)]
      simp [TemplateDraft.push]

theorem exists_raw_templatePart (hg : Grows r s)
    (hf : ∀ x ∈ r.reportedSince (s.templatePart start).2, x.problem ≠ .unterminatedTemplate) :
    ∃ body, s.rest = body ++ ((s.templatePart start).1.closing ++ (s.templatePart start).2.rest) ∧
      (s.templatePart start).1.raw.toList = normalizeBreaks (lineFeedContinuations body) := by
  unfold templatePart at hf ⊢
  have hbody := exists_raw_templateBody hg start {}
  generalize templateBody start s {} = answer at hf hbody ⊢
  obtain ⟨d, tail, t⟩ := answer
  obtain ⟨body, hrest, hraw⟩ := hbody hf
  refine ⟨body, hrest, ?_⟩
  show (String.ofList d.raw.reverse).toList = _
  rw [String.toList_ofList, hraw, List.append_nil, List.reverse_reverse]

/-- **The region of a piece and its raw text.** The piece starts behind the character `c`. -/
theorem Sound.exists_raw_template (h : s.Sound) (hs : s.rest = c :: rest) (hg : Grows r s)
    (hf : ∀ x ∈ r.reportedSince (s.advance.templatePart s.position).2, x.problem ≠ .unterminatedTemplate) :
    ∃ body, (Span.between s.position (s.advance.templatePart s.position).2.position.offset).slice s.text =
        c :: (body ++ (s.advance.templatePart s.position).1.closing) ∧
      (s.advance.templatePart s.position).1.raw.toList = normalizeBreaks (lineFeedContinuations body) := by
  obtain ⟨body, hrest, hraw⟩ := exists_raw_templatePart hg.advance hf
  have hread := (Scans.of_template h hs).reads
  refine ⟨body, Passes.slice_between (.of_sound h hread.sound hread.text ?_) h.rest, hraw⟩
  rw [hs, ← rest_advance hs, hrest]
  simp

/-- Only the reader of templates gives a piece of one. -/
theorem scan_of_template {part : TemplatePart} (h : (s.scan c).1.1 = .template part) :
    part = (s.advance.templatePart s.position).1 ∧ (s.scan c).2 = (s.advance.templatePart s.position).2 := by
  have hplain {k : TokenKind} (hk : k.isPlain = true) : k ≠ .template part := by
    rintro rfl
    cases hk
  unfold scan at h ⊢
  dsimp only at h ⊢
  split at h
  next htick =>
    cases h
    rw [if_pos htick]
    exact ⟨rfl, rfl⟩
  next =>
    split at h
    next => cases h
    next =>
      split at h
      next => exact absurd h (hplain (isPlain_privateName _))
      next =>
        split at h
        next => exact absurd h (hplain (isPlain_numeral _ _ _))
        next =>
          split at h
          next => cases h
          next =>
            obtain hk | ⟨w, hw⟩ := s.advance.nameToken_kind c s.position
            · exact absurd h (hplain hk)
            · cases hw.symm.trans h

end Lexer

/-! ## A lexer in use -/

namespace Session

/-- What a lexer in use can be asked for that may be a piece of a template: the next token, or a token that it has
given out, read again. -/
inductive AnswersTemplate (s : Session) : Token × Lexer → Prop where
  | nextToken : AnswersTemplate s s.lexer.nextToken
  | rescanTemplate {brace : Token} : brace ∈ s.tokens → brace.isEnd = false →
      AnswersTemplate s (s.lexer.rescanTemplate brace)

theorem Sound.exists_raw_template {text : List Char} {s : Session} (h : s.Sound text) {answer : Token × Lexer}
    {part : TemplatePart} (ha : s.AnswersTemplate answer) (hkind : answer.1.kind = .template part)
    (hf : ∀ x ∈ s.lexer.reportedSince answer.2, x.problem ≠ .unterminatedTemplate) :
    ∃ opening body, answer.1.span.slice text = opening :: (body ++ part.closing) ∧
      part.raw.toList = normalizeBreaks (lineFeedContinuations body) := by
  rw [← h.reads]
  cases ha with
  | nextToken =>
      have he : s.lexer.nextToken.1.isEnd = false := by
        unfold Token.isEnd
        rw [hkind]
      obtain ⟨t, c, rest, broken, ht, hg, hrest, -, -, hread⟩ := h.lexer.exists_scan false he
      unfold Lexer.nextToken at hkind hf ⊢
      rw [hread] at hkind hf ⊢
      obtain ⟨rfl, hscan⟩ := Lexer.scan_of_template hkind
      dsimp only at hf ⊢
      rw [hscan] at hf ⊢
      rw [← hg.text]
      exact ⟨c, ht.exists_raw_template hrest hg hf⟩
  | @rescanTemplate brace hmem he =>
      have hl := h.tokens brace hmem
      rw [← h.reads] at hl
      obtain ⟨c, rest, hrest⟩ := Lexer.rest_rewind hl he
      have hpart := (h.lexer.rewind hl.span.1).exists_raw_template hrest ((Lexer.Grows.refl _).rewind _) hf
      cases hkind
      exact ⟨c, hpart⟩

/-- **The raw text of a template is its text, but for continued lines.** Let a lexer be in use over a text, whatever
was asked of it before, and let it give out a piece of a template that has an end. Between what the piece
starts and ends with stands a body, and its raw text is this body with a line feed for each separator that a line is
continued at and then for each carriage return, alone or with its line feed. That is what it should be, with
nothing changed but the carriage returns, if and only if no line is continued at a separator. -/
theorem raw_serveAll (text : List Char) (strict : Bool) (requests : List Request) :
    let s := serveAll { lexer := Lexer.ofChars text strict } requests
    ∀ answer part, s.AnswersTemplate answer → answer.1.kind = .template part →
      (∀ x ∈ s.lexer.reportedSince answer.2, x.problem ≠ .unterminatedTemplate) →
      ∃ opening body, answer.1.span.slice text = opening :: (body ++ part.closing) ∧
        part.raw.toList = normalizeBreaks (lineFeedContinuations body) ∧
        (part.raw.toList = normalizeBreaks body ↔ continuesAtSeparator body = false) := by
  intro s answer part ha hkind hf
  have hsound := (sound_ofChars text strict).serveAll requests
  obtain ⟨opening, body, hslice, hraw⟩ := hsound.exists_raw_template ha hkind hf
  refine ⟨opening, body, hslice, hraw, ?_⟩
  rw [hraw]
  exact normalizeBreaks_lineFeedContinuations_eq_iff body

/-- Two line breaks with a carriage return, of which the second continues a line, and an escape that is not complete. -/
theorem raw_serveAll_returns :
    let text := "\x60a\r\nb\\\rc\\x4\x60".toList
    let answer := (Lexer.ofChars text false).nextToken
    ∃ part, answer.1.kind = .template part ∧ part.cooked = none ∧
      answer.1.span.slice text = '\x60' :: ("a\r\nb\\\rc\\x4".toList ++ part.closing) ∧
      part.raw.toList = normalizeBreaks "a\r\nb\\\rc\\x4".toList := by
  intro text answer
  have hkind : answer.1.kind = .template ⟨none, "a\nb\\\nc\\x4", true,
      [⟨⟨3, 1, 8⟩, .hexDigitExpected, .error⟩, ⟨⟨1, 0, 0⟩, .lineContinuation, .warning⟩]⟩ := by decide +kernel
  have hquiet : answer.2.diagnostics = #[] := by decide +kernel
  obtain ⟨opening, body, hslice, hraw⟩ := raw_serveAll text false [] answer _ .nextToken hkind (by
    rw [Lexer.reportedSince_of_eq hquiet]
    nofun)
  have hbody : body = "a\r\nb\\\rc\\x4".toList := by
    have htext : answer.1.span.slice text = '\x60' :: ("a\r\nb\\\rc\\x4".toList ++ ['\x60']) := by decide +kernel
    exact List.append_cancel_right (List.cons.inj (hslice.symm.trans htext)).2
  subst hbody
  exact ⟨_, hkind, rfl, by decide +kernel, hraw.2.mpr (by decide)⟩

/-- A line that is continued at a separator of lines: the raw text has a line feed, although no carriage return stands
there. -/
theorem raw_serveAll_separator :
    let text := "\x60\\\u2028\x60".toList
    let s := serveAll { lexer := Lexer.ofChars text false } []
    ∃ answer part, s.AnswersTemplate answer ∧ answer.1.kind = .template part ∧
      (∀ x ∈ s.lexer.reportedSince answer.2, x.problem ≠ .unterminatedTemplate) ∧
      answer.1.span.slice text = '\x60' :: (['\\', '\u2028'] ++ part.closing) ∧
      part.raw.toList = ['\\', '\n'] ∧ normalizeBreaks ['\\', '\u2028'] = ['\\', '\u2028'] := by
  intro text s
  refine ⟨s.lexer.nextToken, ⟨some "", "\\\n", true, [⟨Position.start, .lineContinuation, .warning⟩]⟩, .nextToken,
    by decide +kernel, ?_, by decide +kernel, by decide, by decide⟩
  have hquiet : s.lexer.nextToken.2.diagnostics = #[] := by decide +kernel
  rw [Lexer.reportedSince_of_eq hquiet]
  nofun

end Session

end EcmaScript
