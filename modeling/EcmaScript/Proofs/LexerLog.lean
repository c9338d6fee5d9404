import EcmaScript.Lexer.Next

/-!
# The lexer only adds to its notes

Whatever the lexer reads, it takes nothing back that it has noted: the problems, features and comments
it holds are the first ones it holds later, over the same text. Only the grammar empties them.

`Grows s t` says so of two states. Its lemmas are written as steps: each takes `Grows r s` for an
earlier state `r` to `Grows r t` for the state `t` behind one more operation, so that a proof about a
reader is the chain of its operations.
-/

namespace EcmaScript

namespace Lexer

/-- `t` is a later state of the lexer `s`. -/
structure Grows (s t : Lexer) : Prop where
  text : t.text = s.text
  strict : t.strict = s.strict
  comments : s.comments.toList <+: t.comments.toList
  diagnostics : s.diagnostics.toList <+: t.diagnostics.toList
  features : s.features.toList <+: t.features.toList

namespace Grows

variable {r s t : Lexer}

@[refl] theorem refl (s : Lexer) : Grows s s :=
  ⟨rfl, rfl, List.prefix_refl _, List.prefix_refl _, List.prefix_refl _⟩

theorem trans (h : Grows r s) (h' : Grows s t) : Grows r t :=
  ⟨h'.text.trans h.text, h'.strict.trans h.strict, h.comments.trans h'.comments,
    h.diagnostics.trans h'.diagnostics, h.features.trans h'.features⟩

/-- Whichever way is taken. -/
theorem ite {c : Prop} [Decidable c] (hs : Grows r s) (ht : Grows r t) :
    Grows r (if c then s else t) := by
  split
  · exact hs
  · exact ht

/-- Whichever way is taken, with what was read beside it. -/
theorem ite_snd {α : Type} {p q : α × Lexer} {c : Prop} [Decidable c] (hp : Grows r p.2)
    (hq : Grows r q.2) : Grows r (if c then p else q).2 := by
  split
  · exact hp
  · exact hq

/-! ## Single operations -/

theorem report (h : Grows r s) (p : Position) (m : LexicalProblem) (v : Severity) :
    Grows r (s.report p m v) := by
  refine h.trans ⟨rfl, rfl, List.prefix_refl _, ?_, List.prefix_refl _⟩
  show s.diagnostics.toList <+: (s.diagnostics.push _).toList
  rw [Array.toList_push]
  exact List.prefix_append _ _

theorem error (h : Grows r s) (p : Position) (m : LexicalProblem) : Grows r (s.error p m) :=
  h.report p m .error

theorem warning (h : Grows r s) (p : Position) (m : LexicalProblem) : Grows r (s.warning p m) :=
  h.report p m .warning

theorem record (h : Grows r s) (f : Feature) (p : Position) : Grows r (s.record f p) := by
  refine h.trans ⟨rfl, rfl, List.prefix_refl _, List.prefix_refl _, ?_⟩
  show s.features.toList <+: (s.features.push _).toList
  rw [Array.toList_push]
  exact List.prefix_append _ _

theorem cutSince (h : Grows r s) (p : Position) : Grows r (s.cutSince p).2 :=
  ite h ⟨h.text, h.strict, h.comments, h.diagnostics, h.features⟩

theorem pushComment (h : Grows r s) (k : CommentKind) (p : Position) :
    Grows r (s.pushComment k p) := by
  refine (h.cutSince p).trans ⟨rfl, rfl, ?_, List.prefix_refl _, List.prefix_refl _⟩
  show (s.cutSince p).2.comments.toList <+: ((s.cutSince p).2.comments.push _).toList
  rw [Array.toList_push]
  exact List.prefix_append _ _

/-- Where the lexer stands does not matter. -/
theorem move (h : Grows r s) (rest : List Char) (p : Position) (b : Bool) :
    Grows r { s with rest := rest, position := p, atLineStart := b } :=
  ⟨h.text, h.strict, h.comments, h.diagnostics, h.features⟩

theorem rewind (h : Grows r s) (p : Position) : Grows r (s.rewind p) := h.move _ _ _

theorem advance (h : Grows r s) : Grows r s.advance := by
  unfold Lexer.advance
  split
  · exact ⟨h.text, h.strict, h.comments, h.diagnostics, h.features⟩
  · exact h.move _ _ _

theorem advanceBy (h : Grows r s) (n : Nat) : Grows r (s.advanceBy n) := by
  induction n generalizing s with
  | zero => exact h
  | succ n ih => exact ih h.advance

theorem skipWhile (h : Grows r s) (p : Char → Bool) : Grows r (s.skipWhile p) := by
  fun_induction Lexer.skipWhile p s with
  | case1 => exact h
  | case2 _ _ _ _ _ ih => exact ih h.advance
  | case3 => exact h

theorem skipLineBreak (h : Grows r s) : Grows r s.skipLineBreak := by
  unfold Lexer.skipLineBreak
  split
  · exact h.advance.advance
  · exact h.advance

/-! ## Blanks and comments -/

theorem skipLine (h : Grows r s) : Grows r s.skipLine := h.skipWhile _

theorem lineComment (h : Grows r s) (k : CommentKind) : Grows r (s.lineComment k) :=
  h.advance.skipLine.pushComment k _

theorem skipBlockBody (h : Grows r s) (newline : Bool) : Grows r (s.skipBlockBody newline).2 := by
  fun_induction Lexer.skipBlockBody s newline with
  | case1 => exact h
  | case2 => exact h
  | case3 _ _ _ _ _ _ ih => exact ih h.advance

theorem blockComment (h : Grows r s) : Grows r s.blockComment.2 := by
  have hb := h.advance.advance.skipBlockBody false
  unfold Lexer.blockComment
  split
  next newline body heq =>
    rw [heq] at hb
    split
    · exact hb.error _ _
    · exact hb.advance.advance.pushComment _ _

theorem skipTrivia (h : Grows r s) (newline : Bool) : Grows r (s.skipTrivia newline).2 := by
  fun_induction Lexer.skipTrivia s newline with
  | case1 => exact h
  | case2 _ _ _ _ _ _ ih => exact ih (h.advance.move _ _ _)
  | case3 _ _ _ _ _ _ _ ih => exact ih h.advance
  | case4 _ _ _ _ _ _ _ _ ih => exact ih (h.lineComment _)
  | case5 _ _ _ _ _ _ _ _ _ _ ih => exact ih (h.blockComment.move _ _ _)
  | case6 _ _ _ _ _ _ _ _ _ _ ih => exact ih h.blockComment
  | case7 _ _ _ _ _ _ _ _ _ _ ih => exact ih ((h.warning _ _).lineComment _)
  | case8 => exact h

theorem skipFault (h : Grows r s) (ht : s.skipFault? = some t) : Grows r t := by
  unfold Lexer.skipFault? at ht
  split at ht
  · cases ht
  · split at ht
    · cases ht
      exact (h.error _ _).advance.skipLine.move _ _ _
    · split at ht
      · cases ht
      · cases ht
        exact (h.error _ _).advance.move _ _ _
    · cases ht
      exact (h.error _ _).advance.move _ _ _
  · split at ht
    · cases ht
    · cases ht
      exact (h.error _ _).advance.move _ _ _

/-! ## Escapes -/

theorem hexDigits (h : Grows r s) (n code : Nat) : Grows r (Lexer.hexDigits n s code).2 := by
  induction n generalizing s code with
  | zero => exact h
  | succ n ih =>
      unfold Lexer.hexDigits
      split
      · exact h
      · exact ih h.advance _

theorem octalDigits (h : Grows r s) (n code : Nat) : Grows r (Lexer.octalDigits n s code).2 := by
  induction n generalizing s code with
  | zero => exact h
  | succ n ih =>
      unfold Lexer.octalDigits
      split
      · exact h
      · exact ih h.advance _

theorem bracedDigits (h : Grows r s) (code : BoundedCode) : Grows r (s.bracedDigits code).2 := by
  fun_induction Lexer.bracedDigits s code with
  | case1 => exact h
  | case2 => exact h.advance
  | case3 => exact h
  | case4 _ _ _ _ _ _ _ _ ih => exact ih h.advance

theorem unicodeEscape (h : Grows r s) : Grows r s.unicodeEscape.2 := by
  unfold Lexer.unicodeEscape
  split
  · exact h.advance.advance
  · have hb := h.advance.bracedDigits {}
    split
    next heq => rw [heq] at hb; exact hb
    next heq => rw [heq] at hb; split <;> exact hb
  · have hd := h.hexDigits 4 0
    split
    next heq => rw [heq] at hd; exact hd
    next heq => rw [heq] at hd; exact hd

theorem unicodeEscapeOrReport (h : Grows r s) (m : LexicalProblem) :
    Grows r (s.unicodeEscapeOrReport m).2 := by
  have hu := h.unicodeEscape
  unfold Lexer.unicodeEscapeOrReport
  split
  next heq => rw [heq] at hu; exact hu
  next heq => rw [heq] at hu; exact hu.error _ _

theorem writtenHexDigits (h : Grows r s) (n code : Nat) (d : TemplateDraft) :
    Grows r (Lexer.writtenHexDigits n s code d).2.2 := by
  rw [(writes_hexDigits n s code d).lexer_eq]
  exact h.hexDigits n code

theorem writtenUnicodeEscape (h : Grows r s) (d : TemplateDraft) :
    Grows r (s.writtenUnicodeEscape d).2.2 := by
  rw [(s.writes_unicodeEscape d).lexer_eq]
  exact h.unicodeEscape

theorem stringEscape (h : Grows r s) (start : Position) (c : Char) :
    Grows r (s.stringEscape start c).2 := by
  have hh := h.advance.hexDigits 2 0
  have hu := h.advance.unicodeEscapeOrReport .hexDigitExpected
  simp only [Lexer.stringEscape]
  split
  · exact h.advance
  · split
    · exact h.advance
    · split
      · split
        next heq => rw [heq] at hh; exact hh
        next heq => rw [heq] at hh; exact hh.error _ _
      · split
        · split
          next heq => rw [heq] at hu; exact hu
          next heq => rw [heq] at hu; exact hu
        · split
          · split
            · exact h.advance
            · exact (h.advance.octalDigits _ _).report _ _ _
          · exact h.advance.warning _ _

theorem templateEscape (h : Grows r s) (place : Position) (c : Char) (d : TemplateDraft) :
    Grows r (s.templateEscape place c d).2 := by
  have hh := h.advance.writtenHexDigits 2 0 (d.write [c])
  have hu := h.advance.writtenUnicodeEscape (d.write [c])
  simp only [Lexer.templateEscape]
  split
  · exact h.advance
  · split
    · exact h.advance
    · split
      · exact h.advance
      · split
        · exact h.advance
        · split
          · split
            next heq => rw [heq] at hh; exact hh
            next heq => rw [heq] at hh; exact hh
          · split
            · split
              next heq => rw [heq] at hu; exact hu
              next heq => rw [heq] at hu; exact hu
            · split <;> exact h.advance

/-! ## Literals -/

theorem stringBody (h : Grows r s) (quote : Char) (start : Position) (read : List Char)
    (continued : Bool) : Grows r (Lexer.stringBody quote start s read continued).2.2 := by
  fun_induction Lexer.stringBody quote start s read continued with
  | case1 => exact h.error _ _
  | case2 => exact h.error _ _
  | case3 => exact h.advance
  | case4 => exact h.advance.error _ _
  | case5 _ _ _ _ _ _ _ _ _ _ _ _ _ ih => exact ih h.advance.skipLineBreak
  | case6 _ _ _ _ _ _ _ _ _ _ _ _ _ ih => exact ih (h.advance.stringEscape _ _)
  | case7 _ _ _ _ _ _ _ _ _ _ ih => exact ih (h.advance.record _ _)
  | case8 _ _ _ _ _ _ _ _ _ _ ih => exact ih h.advance

theorem stringLiteral (h : Grows r s) (quote : Char) (start : Position) :
    Grows r (s.stringLiteral quote start).2 := by
  have hb := h.stringBody quote start [] false
  unfold Lexer.stringLiteral
  split
  next heq =>
    rw [heq] at hb
    dsimp only
    split
    · exact (hb.warning _ _).record _ _
    · exact hb

theorem templateBody (h : Grows r s) (start : Position) (d : TemplateDraft) :
    Grows r (Lexer.templateBody start s d).2.2 := by
  fun_induction Lexer.templateBody start s d with
  | case1 => exact h.error _ _
  | case2 => exact h.advance
  | case3 => exact h.advance.advance
  | case4 _ _ _ _ _ _ _ _ ih => exact ih h.skipLineBreak
  | case5 _ _ _ _ _ _ _ _ _ _ ih => exact ih h.advance
  | case6 _ _ _ _ _ _ _ _ _ _ _ _ _ ih => exact ih h.advance.skipLineBreak
  | case7 _ _ _ _ _ _ _ _ _ _ _ _ _ ih => exact ih (h.advance.templateEscape _ _ _)
  | case8 _ _ _ _ _ _ _ _ _ ih => exact ih h.advance

theorem templatePart (h : Grows r s) (start : Position) : Grows r (s.templatePart start).2 :=
  h.templateBody start {}

theorem regExpBody (h : Grows r s) (inClass : Bool) (read : List Char) :
    Grows r (s.regExpBody inClass read).2 := by
  fun_induction Lexer.regExpBody s inClass read with
  | case1 => exact h.error _ _
  | case2 => exact h.error _ _
  | case3 => exact h.advance.error _ _
  | case4 => exact h.advance.error _ _
  | case5 _ _ _ _ _ _ _ _ _ _ _ _ ih => exact ih h.advance.advance
  | case6 => exact h.advance
  | case7 _ _ _ _ _ _ _ _ _ ih => exact ih h.advance

theorem regExpLiteral (h : Grows r s) : Grows r s.regExpLiteral.2 :=
  (h.regExpBody false []).skipWhile _

/-! ## Numbers -/

theorem digitsFrom (h : Grows r s) (radix : Nat) (start : Position) (read : List Char) :
    Grows r (Lexer.digitsFrom radix start s read).2 := by
  fun_induction Lexer.digitsFrom radix start s read with
  | case1 => exact h
  | case2 _ _ _ _ _ _ ih => exact ih h.advance
  | case3 _ _ _ _ _ _ _ _ ih => exact ih (h.advance.record _ _)
  | case4 _ _ _ _ _ _ _ _ ih => exact ih ((h.advance.record _ _).error _ _)
  | case5 => exact h

theorem digits (h : Grows r s) (radix : Nat) (start : Position) :
    Grows r (s.digits radix start).2 := h.digitsFrom radix start []

theorem radixNumeral (h : Grows r s) (radix : Radix) (start : Position) :
    Grows r (s.radixNumeral radix start).2 := by
  have hf : Grows r (radix.feature?.elim s (s.record · start)) := by
    cases radix.feature? with
    | none => exact h
    | some f => exact h.record _ _
  unfold Lexer.radixNumeral
  dsimp only
  refine ite_snd (advance ?_) ?_ <;>
    exact ite (skipWhile (error (digits (ite hf (hf.error _ _)) _ _) _ _) _)
      (digits (ite hf (hf.error _ _)) _ _)

theorem legacyNumeral (h : Grows r s) (start : Position) : Grows r (s.legacyNumeral start).2 := by
  have ht := h.skipWhile Char.isDigit
  unfold Lexer.legacyNumeral
  dsimp only
  refine ite_snd (error (advance ?_) _ _) (ite_snd (report ?_ _ _ _) ?_) <;>
    exact ite (ht.advance.skipWhile _) ht

theorem exponentPart (h : Grows r s) (start : Position) : Grows r (s.exponentPart start).2 := by
  have hs : Grows r (if s.advance.nextIs fun c => c == '+' || c == '-' then s.advance.advance
      else s.advance) := ite h.advance.advance h.advance
  unfold Lexer.exponentPart
  dsimp only
  exact ite_snd (digits (ite hs (hs.error _ _)) _ _) h

theorem decimalNumeral (h : Grows r s) (first : Char) (start : Position) :
    Grows r (s.decimalNumeral first start).2 := by
  have hw : Grows r (if first == '.' then (['0'], s) else
      (first :: (s.digits 10 start).1, (s.digits 10 start).2)).2 :=
    ite_snd h (h.digits 10 start)
  unfold Lexer.decimalNumeral
  dsimp only
  refine ite_snd (ite (error (advance ?_) _ _) (advance ?_)) ?_ <;>
    refine exponentPart (ite_snd (digits (ite (advance ?_) ?_) _ _) (ite (advance ?_) ?_)) _ <;>
    exact hw

/-- Every form of number. -/
theorem numeral (h : Grows r s) (first : Char) (start : Position) :
    Grows r (s.numeral first start).2 := by
  unfold Lexer.numeral
  split
  · split
    · exact h.advance.radixNumeral _ _
    · exact ite_snd (h.legacyNumeral _) (h.decimalNumeral _ _)
  · exact h.decimalNumeral _ _

/-! ## Names -/

theorem nameRest (h : Grows r s) (read : List Char) (escaped : Bool) :
    Grows r (s.nameRest read escaped).2 := by
  fun_induction Lexer.nameRest s read escaped with
  | case1 => exact h
  | case2 _ _ _ _ _ _ _ ih => exact ih h.advance
  | case3 _ _ _ _ _ _ _ _ _ _ _ heq _ ih =>
      have hu := h.advance.advance.unicodeEscapeOrReport .invalidEscape
      rw [heq] at hu
      exact ih hu
  | case4 _ _ _ _ _ _ _ _ _ _ _ heq _ =>
      have hu := h.advance.advance.unicodeEscapeOrReport .invalidEscape
      rw [heq] at hu
      exact hu.error _ _
  | case5 _ _ _ _ _ _ _ _ _ _ heq =>
      have hu := h.advance.advance.unicodeEscapeOrReport .invalidEscape
      rw [heq] at hu
      exact hu
  | case6 => exact h.advance.error _ _
  | case7 => exact h

theorem recoverName (h : Grows r s) (start : Position) : Grows r (s.recoverName start).2 :=
  (h.skipWhile _).cutSince start

theorem nameFrom (h : Grows r s) (first : Char) (escaped : Bool) (start : Position) :
    Grows r (s.nameFrom first escaped start).2 := by
  have hn := h.nameRest [first] escaped
  unfold Lexer.nameFrom
  split
  next heq => rw [heq] at hn; exact hn
  next heq => rw [heq] at hn; exact hn.recoverName start

theorem escapedName (h : Grows r s) (start : Position) : Grows r (s.escapedName start).2 := by
  have hu := h.advance.unicodeEscapeOrReport .invalidEscape
  unfold Lexer.escapedName
  dsimp only
  split
  · split
    next heq =>
      rw [heq] at hu
      exact ite_snd (hu.nameFrom _ _ _) ((hu.error _ _).recoverName start)
    next heq => rw [heq] at hu; exact hu.recoverName start
  · exact (h.error _ _).recoverName start

theorem nameToken (h : Grows r s) (c : Char) (start : Position) :
    Grows r (s.nameToken c start).2 := ite_snd (h.escapedName start) (h.nameFrom c false start)

theorem privateName (h : Grows r s) : Grows r s.privateName.2 := by
  unfold Lexer.privateName
  split
  · exact h
  · exact h.advance.nameToken _ _

/-! ## Tokens -/

theorem scan (h : Grows r s) (c : Char) : Grows r (s.scan c).2 := by
  unfold Lexer.scan
  dsimp only
  split
  · exact h.advance.templatePart _
  · split
    · exact h.advance.stringLiteral _ _
    · split
      · exact h.advance.privateName
      · split
        · exact h.advance.numeral _ _
        · split
          · exact h.advanceBy _
          · exact h.advance.nameToken _ _

theorem nextTokenFrom (h : Grows r s) (newline : Bool) : Grows r (s.nextTokenFrom newline).2 := by
  -- behind a fault the search goes on with less of the text left
  induction hn : s.rest.length using Nat.strongRecOn generalizing s newline with
  | ind n ih =>
      have hs := h.skipTrivia newline
      have hl := s.length_rest_skipTrivia_le newline
      rw [Lexer.nextTokenFrom]
      split
      next broken t ht =>
        rw [ht] at hs hl
        split
        next u hu =>
          have hlt := Nat.lt_of_lt_of_le (length_rest_skipFault?_lt hu) hl
          exact ih _ (hn ▸ hlt) (hs.skipFault hu) broken rfl
        next =>
          split
          · exact hs
          · exact (hs.move _ _ _).scan _

end Grows

/-! ## What the grammar asks for -/

/-- **A token is read without loss of notes.** -/
theorem grows_nextToken (s : Lexer) : Grows s s.nextToken.2 := (Grows.refl s).nextTokenFrom false

theorem grows_rescanRegExp (s : Lexer) (slash : Token) : Grows s (s.rescanRegExp slash).2 :=
  ((Grows.refl s).rewind slash.start).advance.regExpLiteral

theorem grows_rescanTemplate (s : Lexer) (brace : Token) : Grows s (s.rescanTemplate brace).2 :=
  ((Grows.refl s).rewind brace.start).advance.templatePart brace.start

/-! ## What was reported in between -/

/-- The problems that were noted since the state `s`. -/
def reportedSince (s t : Lexer) : List LexicalDiagnostic := t.diagnostics.toList.drop s.diagnostics.size

/-- No error was noted since the state `s`. -/
def ErrorFree (s t : Lexer) : Prop := ∀ d ∈ s.reportedSince t, d.severity ≠ .error

variable {s t u : Lexer} {d : LexicalDiagnostic}

theorem reportedSince_of_eq (h : t.diagnostics = s.diagnostics) : s.reportedSince t = [] := by
  unfold reportedSince
  rw [h, ← Array.length_toList, List.drop_length]

/-- What was reported before is reported later. -/
theorem mem_reportedSince_mono (h : Grows t u) (hd : d ∈ s.reportedSince t) : d ∈ s.reportedSince u := by
  obtain ⟨later, hlater⟩ := h.diagnostics
  unfold reportedSince
  rw [← hlater, List.drop_append]
  exact List.mem_append_left _ hd

theorem Grows.reportedSince_report (h : Grows s t) (p : Position) (m : LexicalProblem) (v : Severity) :
    s.reportedSince (t.report p m v) = s.reportedSince t ++ [⟨p, m, v⟩] := by
  unfold reportedSince Lexer.report
  rw [Array.toList_push, List.drop_append_of_le_length]
  rw [← Array.length_toList]
  exact h.diagnostics.length_le

/-- An error that is reported is among what was reported. -/
theorem Grows.mem_reportedSince_error (h : Grows s t) (p : Position) (m : LexicalProblem) :
    ⟨p, m, .error⟩ ∈ s.reportedSince (t.error p m) := by
  unfold Lexer.error
  rw [h.reportedSince_report]
  exact List.mem_append_right _ (List.mem_singleton_self _)

theorem errorFree_of_eq (h : t.diagnostics = s.diagnostics) : s.ErrorFree t := by
  unfold ErrorFree
  rw [reportedSince_of_eq h]
  nofun

theorem errorFree_congr (h : t.diagnostics = u.diagnostics) : s.ErrorFree t ↔ s.ErrorFree u := by
  unfold ErrorFree reportedSince
  rw [h]

/-- A warning is no error. -/
theorem Grows.errorFree_warning (h : Grows s t) (p : Position) (m : LexicalProblem) :
    s.ErrorFree (t.warning p m) ↔ s.ErrorFree t := by
  unfold ErrorFree Lexer.warning
  rw [h.reportedSince_report, List.forall_mem_append, List.forall_mem_singleton]
  exact and_iff_left nofun

theorem Grows.not_errorFree_error (h : Grows s t) (p : Position) (m : LexicalProblem) :
    ¬s.ErrorFree (t.error p m) :=
  fun hfree => hfree _ (h.mem_reportedSince_error p m) rfl

/-! ## Reading ahead -/

/-- **What was only added to is found again.** A lexer that comes back to a state it has left holds the notes
it held there, since a checkpoint counts them and none of them was taken back. -/
theorem Grows.restore_save {s t : Lexer} (h : Grows s t) :
    t.restore s.save = { s with overrun := t.overrun } := by
  have htake {α : Type} {xs ys : Array α} (hp : xs.toList <+: ys.toList) : ys.take xs.size = xs := by
    rw [← Array.toList_inj, Array.take_eq_extract, Array.toList_extract, List.extract_eq_take_drop,
      List.drop_zero, Nat.sub_zero, ← Array.length_toList]
    exact (List.prefix_iff_eq_take.mp hp).symm
  unfold restore save
  rw [h.text, h.strict, htake h.comments, htake h.diagnostics, htake h.features]

/-- **Reading ahead** gives the next token and leaves the lexer as it is. -/
theorem lookAhead_eq (s : Lexer) : s.lookAhead = (s.nextToken.1, s) := by
  unfold lookAhead
  dsimp only
  rw [s.grows_nextToken.restore_save]

end Lexer

end EcmaScript
