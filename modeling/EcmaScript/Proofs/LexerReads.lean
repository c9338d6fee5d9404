import EcmaScript.Lexer.Next
import EcmaScript.Proofs.LineTable

/-!
# The lexer stays within its text

`Sound s` is what holds of a lexer at all times: what is left is the text from the present place on, the
place is the one that the line table of the text gives, nothing was asked for that the text does not
hold, and all that was noted stands at places of the text.

A reader is a loop or a chain of single steps. `Reads breaks r s` says of two states that the lexer came
from `r` to the sound state `s` by reading alone: forward, over the same text, without noting a comment
and, unless `breaks` is set, on one line. The lemmas are written as steps, as those of `Grows`: each
takes `Reads breaks r s` to the state behind one more operation. The one that matters is `Reads.advance`,
which asks for the character that is read.

## Contents

* `Lexer.Sound`, `Token.Located`: the invariant of the state and of what it gives out.
* `Lexer.Reads`: reading alone, with one lemma for each reader.
* `Lexer.Scans`: a token was read; `Lexer.Gives`: what the lexer answers when asked for one.
-/

namespace EcmaScript

/-! ## Places in what the lexer gives out -/

/-- The characters of a region. -/
def Span.slice (s : Span) (text : List Char) : List Char := (text.drop s.offset).take s.length

/-- A comment of the text, with the characters that stand there. -/
structure Comment.Located (text : List Char) (c : Comment) : Prop where
  span : c.span.Located text
  verbatim : c.text = String.ofList (c.span.slice text)

/-- The problems of a template piece stand at places of the text. -/
def TokenKind.Located (text : List Char) : TokenKind → Prop
  | .template part => ∀ d ∈ part.problems, d.position.Located text
  | _ => True

/-- A kind without places of its own, which says nothing of lines or of spelling either. -/
def TokenKind.isPlain : TokenKind → Bool
  | .keyword _ | .template _ | .endOfText | .punctuator _ => false
  | _ => true

/-- A token of the text. Only the end of the text is empty, and a reserved word ends on the line where
it starts. -/
structure Token.Located (text : List Char) (t : Token) : Prop where
  span : t.span.Located text
  kind : t.kind.Located text
  pos : t.isEnd = false → 0 < t.span.length
  level : ∀ w, t.kind = .keyword w →
    Position.Located text ⟨t.span.line, t.span.column + t.span.length, t.span.stop⟩

/-- The text starts with the mark, which takes `size` characters. -/
def Punctuator.Spells (mark : Punctuator) (size : Nat) (text : List Char) : Prop :=
  ∃ word, (word, mark) ∈ longestFirst ∧ word.length = size ∧ word <+: text

/-- A mark is as long as it is spelled in the text. -/
def Token.Spelled (text : List Char) (t : Token) : Prop :=
  ∀ mark, t.kind = .punctuator mark → mark.Spells t.span.length (text.drop t.span.offset)

namespace Punctuator

variable {text : List Char} {mark : Punctuator} {size : Nat}

theorem length_pos_of_mem_longestFirst : ∀ m ∈ longestFirst, 0 < m.1.length := by decide

/-- The mark at the start of a text is spelled there. -/
theorem spells_of_atStart? (h : atStart? text = some (mark, size)) : mark.Spells size text := by
  unfold atStart? at h
  split at h
  next => cases h
  next word m hm =>
    have hpre : word.isPrefixOf text = true := by simpa using List.find?_some hm
    have hmem := List.mem_of_find?_eq_some hm
    split at h
    next hc =>
      -- a question mark before a number is spelled like the longer mark
      cases h
      obtain ⟨rfl, -⟩ : m = optionalChain ∧ _ := by simpa using hc
      have hword : ∀ m ∈ longestFirst, m.2 = optionalChain → ['?'] <+: m.1 := by decide
      exact ⟨['?'], by decide, rfl,
        (hword _ hmem rfl).trans (List.isPrefixOf_iff_prefix.mp hpre)⟩
    next =>
      cases h
      exact ⟨word, hmem, rfl, List.isPrefixOf_iff_prefix.mp hpre⟩

/-- A mark is not longer than the text that starts with it. -/
theorem Spells.bounds (h : mark.Spells size text) : 0 < size ∧ size ≤ text.length := by
  obtain ⟨word, hmem, rfl, hpre⟩ := h
  exact ⟨length_pos_of_mem_longestFirst _ hmem, hpre.length_le⟩

end Punctuator

/-- The features that a spelling can use. -/
def Feature.isSpelling : Feature → Bool
  | .stringContinuation | .binaryLiterals | .octalLiterals | .numericSeparator
  | .unescapedUnicodeLineOrParagraphSep => true
  | _ => false

namespace Token

variable {t : Token} {mark : Punctuator}

theorem kind_of_isMark (h : t.isMark mark = true) : t.kind = .punctuator mark := by
  unfold isMark at h
  split at h
  next q hq => rw [hq, eq_of_beq h]
  next => cases h

theorem isEnd_of_isMark (h : t.isMark mark = true) : t.isEnd = false := by
  unfold isEnd
  rw [kind_of_isMark h]

end Token

namespace Lexer

/-- What holds of a lexer at all times. -/
structure Sound (s : Lexer) : Prop where
  rest : s.rest = s.text.drop s.position.offset
  place : s.position.Located s.text
  overrun : s.overrun = false
  comments : ∀ c ∈ s.comments, c.Located s.text
  diagnostics : ∀ d ∈ s.diagnostics, d.position.Located s.text
  features : ∀ f ∈ s.features, f.1.isSpelling = true ∧ f.2.Located s.text

/-- The lexer came from `r` to the sound state `s` by reading alone; without `breaks`, on one line. -/
structure Reads (breaks : Bool) (r s : Lexer) : Prop where
  sound : s.Sound
  text : s.text = r.text
  comments : s.comments = r.comments
  forward : r.position.offset ≤ s.position.offset
  level : breaks = false → s.position =
    ⟨r.position.line, r.position.column + (s.position.offset - r.position.offset), s.position.offset⟩

/-! ## The next character -/

theorem exists_of_nextIs {s : Lexer} {p : Char → Bool} (h : s.nextIs p = true) :
    ∃ c rest, s.rest = c :: rest ∧ p c = true := by
  unfold nextIs at h
  cases hr : s.rest with
  | nil => rw [hr] at h; cases h
  | cons c rest => exact ⟨c, rest, rfl, by rwa [hr] at h⟩

theorem exists_of_peek_bind {α : Type} {s : Lexer} {f : Char → Option α} {a : α}
    (h : s.peek?.bind f = some a) : ∃ c rest, s.rest = c :: rest ∧ f c = some a := by
  unfold peek? at h
  cases hr : s.rest with
  | nil => rw [hr] at h; cases h
  | cons c rest => exact ⟨c, rest, rfl, by rwa [hr] at h⟩

theorem advance_cons {s : Lexer} {c : Char} {rest : List Char} (h : s.rest = c :: rest) :
    s.advance = { s with rest := rest, position := s.position.after c rest } := by
  unfold advance
  rw [h]

theorem rest_advance {s : Lexer} {c : Char} {rest : List Char} (h : s.rest = c :: rest) :
    s.advance.rest = rest := by rw [advance_cons h]

theorem offset_advanceBy {s : Lexer} {n : Nat} (h : n ≤ s.rest.length) :
    (s.advanceBy n).position.offset = s.position.offset + n := by
  induction n generalizing s with
  | zero => rfl
  | succ n ih =>
      obtain ⟨c, rest, hc⟩ := List.exists_cons_of_length_pos (Nat.lt_of_lt_of_le (Nat.succ_pos n) h)
      rw [hc, List.length_cons] at h
      show (s.advance.advanceBy n).position.offset = _
      rw [ih (by rw [rest_advance hc]; omega), advance_cons hc, Position.offset_after]
      omega

/-- A class of characters without line breaks is one that misses four characters. -/
theorem isLineTerminator_eq_false {p : Char → Bool} {c : Char} (hc : p c = true)
    (h : ['\n', '\r', '\u2028', '\u2029'].all (p · == false) = true) :
    isLineTerminator c = false := by
  simp only [List.all_cons, List.all_nil, Bool.and_true, Bool.and_eq_true, beq_iff_eq] at h
  unfold isLineTerminator
  simp only [Bool.or_eq_false_iff, beq_eq_false_iff_ne]
  refine ⟨⟨⟨?_, ?_⟩, ?_⟩, ?_⟩ <;> rintro rfl <;> simp_all

theorem isLineTerminator_of_isNamePart {c : Char} (h : isNamePart c = true) :
    isLineTerminator c = false := isLineTerminator_eq_false h (by decide +kernel)

theorem isLineTerminator_of_digitValue {c : Char} {n : Nat} (h : digitValue? 16 c = some n) :
    isLineTerminator c = false :=
  isLineTerminator_eq_false (p := isDigitOf 16) (by unfold isDigitOf; rw [h]; rfl) (by decide +kernel)

namespace Reads

variable {breaks : Bool} {r s t : Lexer} {p : Position} {c : Char} {rest : List Char}

/-! ## Single operations -/

theorem refl (h : s.Sound) : Reads breaks s s :=
  ⟨h, rfl, rfl, Nat.le_refl _, fun _ => by simp⟩

/-- A lexer that may read on over line breaks. -/
theorem start (h : s.Sound) : Reads true s s := refl h

/-- Reading on from where one has come to. -/
theorem trans (h : Reads breaks r s) (h' : Reads breaks s t) : Reads breaks r t := by
  refine ⟨h'.sound, h'.text.trans h.text, h'.comments.trans h.comments,
    Nat.le_trans h.forward h'.forward, fun hb => ?_⟩
  have hf := h.forward
  have hf' := h'.forward
  rw [h'.level hb, h.level hb]
  simp only [Position.mk.injEq, true_and, and_true]
  omega

/-- Whichever way is taken. -/
theorem ite {a : Prop} [Decidable a] (hs : a → Reads breaks r s) (ht : ¬a → Reads breaks r t) :
    Reads breaks r (if a then s else t) := by
  split
  next h => exact hs h
  next h => exact ht h

/-- Whichever way is taken, with what was read beside it. -/
theorem ite_snd {α : Type} {x y : α × Lexer} {a : Prop} [Decidable a]
    (hx : a → Reads breaks r x.2) (hy : ¬a → Reads breaks r y.2) :
    Reads breaks r (if a then x else y).2 := by
  split
  next h => exact hx h
  next h => exact hy h

/-- The present place is one of the text. -/
theorem here (h : Reads breaks r s) : s.position.Located r.text := h.text ▸ h.sound.place

theorem report (h : Reads breaks r s) (hp : p.Located r.text) (m : LexicalProblem) (v : Severity) :
    Reads breaks r (s.report p m v) := by
  refine ⟨{ h.sound with diagnostics := fun d hd => ?_ }, h.text, h.comments, h.forward, h.level⟩
  obtain hd | rfl := Array.mem_push.mp hd
  · exact h.sound.diagnostics d hd
  · exact h.text ▸ hp

theorem error (h : Reads breaks r s) (hp : p.Located r.text) (m : LexicalProblem) :
    Reads breaks r (s.error p m) := h.report hp m .error

theorem warning (h : Reads breaks r s) (hp : p.Located r.text) (m : LexicalProblem) :
    Reads breaks r (s.warning p m) := h.report hp m .warning

theorem record (h : Reads breaks r s) {f : Feature} (hf : f.isSpelling = true) (hp : p.Located r.text) :
    Reads breaks r (s.record f p) := by
  refine ⟨{ h.sound with features := fun d hd => ?_ }, h.text, h.comments, h.forward, h.level⟩
  obtain hd | rfl := Array.mem_push.mp hd
  · exact h.sound.features d hd
  · exact ⟨hf, h.text ▸ hp⟩

/-- What was read can be cut out. -/
theorem cutSince (h : Reads breaks r s) (hp : p.offset ≤ s.position.offset) :
    Reads breaks r (s.cutSince p).2 := by
  have hc : s.covers p = true := by simp [covers, hp, h.sound.place.offset_le]
  unfold Lexer.cutSince
  rw [if_pos hc]
  exact h

/-- **A character that is there can be read.** -/
theorem advance (h : Reads breaks r s) (hc : s.rest = c :: rest)
    (hb : breaks = false → isLineTerminator c = false) : Reads breaks r s.advance := by
  have hd : s.text.drop s.position.offset = c :: rest := h.sound.rest ▸ hc
  have ho := s.position.offset_after c rest
  rw [advance_cons hc]
  refine ⟨⟨?_, h.sound.place.after hd, h.sound.overrun, h.sound.comments, h.sound.diagnostics,
    h.sound.features⟩, h.text, h.comments, ?_, fun hf => ?_⟩
  · show rest = s.text.drop (s.position.after c rest).offset
    rw [ho, drop_succ_of_drop hd]
  · exact Nat.le_trans h.forward (ho ▸ Nat.le_succ _)
  · have hl := h.level hf
    have hle := h.forward
    dsimp only
    rw [Position.after_of_not_isLineTerminator _ (hb hf), hl]
    simp only [Position.mk.injEq, true_and, and_true]
    omega

/-- The same where line breaks are allowed. -/
theorem next (h : Reads true r s) (hc : s.rest = c :: rest) : Reads true r s.advance :=
  h.advance hc nofun

theorem nextIf {q : Char → Bool} (h : Reads true r s) (hq : s.nextIs q = true) :
    Reads true r s.advance := by
  obtain ⟨c, rest, hc, -⟩ := exists_of_nextIs hq
  exact h.next hc

theorem advanceBy (h : Reads true r s) {n : Nat} (hn : n ≤ s.rest.length) :
    Reads true r (s.advanceBy n) := by
  induction n generalizing s with
  | zero => exact h
  | succ n ih =>
      obtain ⟨c, rest, hc⟩ := List.exists_cons_of_length_pos (Nat.lt_of_lt_of_le (Nat.succ_pos n) hn)
      refine ih (h.next hc) ?_
      rw [rest_advance hc]
      rw [hc, List.length_cons] at hn
      omega

theorem skipWhile (h : Reads breaks r s) {q : Char → Bool}
    (hb : breaks = false → ∀ c, q c = true → isLineTerminator c = false) :
    Reads breaks r (s.skipWhile q) := by
  fun_induction Lexer.skipWhile q s with
  | case1 => exact h
  | case2 s c rest hc hq ih => exact ih (h.advance hc fun hf => hb hf c hq)
  | case3 => exact h

theorem skipAll (h : Reads true r s) (q : Char → Bool) : Reads true r (s.skipWhile q) :=
  h.skipWhile nofun

theorem skipLineBreak (h : Reads true r s) (hc : s.rest = c :: rest) :
    Reads true r s.skipLineBreak := by
  unfold Lexer.skipLineBreak
  split
  next heq => exact (h.next heq).next (rest_advance heq)
  next => exact h.next hc

/-! ## Escapes -/

theorem hexDigits (h : Reads breaks r s) (n code : Nat) :
    Reads breaks r (Lexer.hexDigits n s code).2 := by
  induction n generalizing s code with
  | zero => exact h
  | succ n ih =>
      unfold Lexer.hexDigits
      split
      · exact h
      next d hd =>
        obtain ⟨c, rest, hc, hv⟩ := exists_of_peek_bind hd
        exact ih (h.advance hc fun _ => isLineTerminator_of_digitValue hv) _

theorem octalDigits (h : Reads true r s) (n code : Nat) :
    Reads true r (Lexer.octalDigits n s code).2 := by
  induction n generalizing s code with
  | zero => exact h
  | succ n ih =>
      unfold Lexer.octalDigits
      split
      · exact h
      next d hd =>
        obtain ⟨c, rest, hc, -⟩ := exists_of_peek_bind hd
        exact ih (h.next hc) _

theorem bracedDigits (h : Reads breaks r s) (code : BoundedCode) :
    Reads breaks r (s.bracedDigits code).2 := by
  fun_induction Lexer.bracedDigits s code with
  | case1 => exact h
  | case2 s _ c _ hc hbrace =>
      exact h.advance hc fun _ => by rw [eq_of_beq hbrace]; rfl
  | case3 => exact h
  | case4 s _ c _ hc _ d hv ih => exact ih (h.advance hc fun _ => isLineTerminator_of_digitValue hv)

theorem unicodeEscape (h : Reads breaks r s) : Reads breaks r s.unicodeEscape.2 := by
  unfold Lexer.unicodeEscape
  split
  next heq => exact (h.advance heq fun _ => rfl).advance (rest_advance heq) fun _ => rfl
  next heq =>
    have hb := (h.advance heq fun _ => rfl).bracedDigits {}
    split
    next heq => rw [heq] at hb; exact hb
    next heq => rw [heq] at hb; split <;> exact hb
  next =>
    have hd := h.hexDigits 4 0
    split
    next heq => rw [heq] at hd; exact hd
    next heq => rw [heq] at hd; exact hd

theorem unicodeEscapeOrReport (h : Reads breaks r s) (m : LexicalProblem) :
    Reads breaks r (s.unicodeEscapeOrReport m).2 := by
  have hu := h.unicodeEscape
  unfold Lexer.unicodeEscapeOrReport
  split
  next heq => rw [heq] at hu; exact hu
  next heq => rw [heq] at hu; exact hu.error hu.here _

theorem writtenHexDigits (h : Reads breaks r s) (n code : Nat) (d : TemplateDraft) :
    Reads breaks r (Lexer.writtenHexDigits n s code d).2.2 := by
  rw [(writes_hexDigits n s code d).lexer_eq]
  exact h.hexDigits n code

theorem writtenUnicodeEscape (h : Reads breaks r s) (d : TemplateDraft) :
    Reads breaks r (s.writtenUnicodeEscape d).2.2 := by
  rw [(s.writes_unicodeEscape d).lexer_eq]
  exact h.unicodeEscape

theorem stringEscape (h : Reads true r s) (hp : p.Located r.text) (hc : s.rest = c :: rest) :
    Reads true r (s.stringEscape p c).2 := by
  have ha := h.next hc
  have hh := ha.hexDigits 2 0
  have hu := ha.unicodeEscapeOrReport .hexDigitExpected
  simp only [Lexer.stringEscape]
  split
  · exact ha
  · split
    · exact ha
    · split
      · split
        next heq => rw [heq] at hh; exact hh
        next heq => rw [heq] at hh; exact hh.error hh.here _
      · split
        · split
          next heq => rw [heq] at hu; exact hu
          next heq => rw [heq] at hu; exact hu
        · split
          · split
            · exact ha
            · exact (ha.octalDigits _ _).report h.here _ _
          · exact ha.warning hp _

theorem templateEscape (h : Reads true r s) (place : Position) (hc : s.rest = c :: rest)
    (d : TemplateDraft) : Reads true r (s.templateEscape place c d).2 := by
  have ha := h.next hc
  have hh := ha.writtenHexDigits 2 0 (d.write [c])
  have hu := ha.writtenUnicodeEscape (d.write [c])
  simp only [Lexer.templateEscape]
  split
  · exact ha
  · split
    · exact ha
    · split
      · exact ha
      · split
        · exact ha
        · split
          · split
            next heq => rw [heq] at hh; exact hh
            next heq => rw [heq] at hh; exact hh
          · split
            · split
              next heq => rw [heq] at hu; exact hu
              next heq => rw [heq] at hu; exact hu
            · split <;> exact ha

/-! ## Literals -/

theorem stringBody (h : Reads true r s) (quote : Char) (hp : p.Located r.text) (read : List Char)
    (continued : Bool) : Reads true r (Lexer.stringBody quote p s read continued).2.2 := by
  fun_induction Lexer.stringBody quote p s read continued with
  | case1 => exact h.error hp _
  | case2 => exact h.error hp _
  | case3 _ _ _ _ _ hc => exact h.next hc
  | case4 _ _ _ _ _ hc => exact (h.next hc).error hp _
  | case5 _ _ _ _ _ hc _ _ _ _ _ he _ ih => exact ih ((h.next hc).skipLineBreak he)
  | case6 _ _ _ _ _ hc _ _ _ _ _ he _ ih => exact ih ((h.next hc).stringEscape hp he)
  | case7 _ _ _ _ _ hc _ _ _ _ ih => exact ih ((h.next hc).record rfl hp)
  | case8 _ _ _ _ _ hc _ _ _ _ ih => exact ih (h.next hc)

theorem stringLiteral (h : Reads true r s) (quote : Char) (hp : p.Located r.text) :
    Reads true r (s.stringLiteral quote p).2 := by
  have hb := h.stringBody quote hp [] false
  unfold Lexer.stringLiteral
  split
  next heq =>
    rw [heq] at hb
    exact ite (fun _ => (hb.warning hp _).record rfl hp) fun _ => hb

theorem templateBody (h : Reads true r s) (hp : p.Located r.text) (d : TemplateDraft) :
    Reads true r (Lexer.templateBody p s d).2.2 := by
  fun_induction Lexer.templateBody p s d with
  | case1 => exact h.error hp _
  | case2 _ _ _ _ hc => exact h.next hc
  | case3 s _ c rest hc _ hd =>
      obtain ⟨tail, hr⟩ : ∃ tail, rest = '\x7b' :: tail := by
        simp only [Bool.and_eq_true, beq_iff_eq, List.head?_eq_some_iff] at hd
        exact hd.2
      exact (h.next hc).next ((rest_advance hc).trans hr)
  | case4 _ _ _ _ hc _ _ _ ih => exact ih (h.skipLineBreak hc)
  | case5 _ _ _ _ hc _ _ _ _ _ ih => exact ih (h.next hc)
  | case6 _ _ _ _ hc _ _ _ _ _ _ he _ ih => exact ih ((h.next hc).skipLineBreak he)
  | case7 _ _ _ _ hc _ _ _ _ _ _ he _ ih => exact ih ((h.next hc).templateEscape _ he _)
  | case8 _ _ _ _ hc _ _ _ _ ih => exact ih (h.next hc)

theorem templatePart (h : Reads true r s) (hp : p.Located r.text) :
    Reads true r (s.templatePart p).2 := h.templateBody hp {}

theorem regExpBody (h : Reads true r s) (inClass : Bool) (read : List Char) :
    Reads true r (s.regExpBody inClass read).2 := by
  fun_induction Lexer.regExpBody s inClass read with
  | case1 => exact h.error h.here _
  | case2 => exact h.error h.here _
  | case3 _ _ _ _ _ hc => exact (h.next hc).error (h.next hc).here _
  | case4 _ _ _ _ _ hc => exact (h.next hc).error (h.next hc).here _
  | case5 _ _ _ _ _ hc _ _ _ _ he _ ih => exact ih ((h.next hc).next he)
  | case6 _ _ _ _ _ hc => exact h.next hc
  | case7 _ _ _ _ _ hc _ _ _ ih => exact ih (h.next hc)

theorem regExpLiteral (h : Reads true r s) : Reads true r s.regExpLiteral.2 :=
  (h.regExpBody false []).skipAll _

/-! ## Numbers -/

theorem digitsFrom (h : Reads true r s) (radix : Nat) (hp : p.Located r.text) (read : List Char) :
    Reads true r (Lexer.digitsFrom radix p s read).2 := by
  fun_induction Lexer.digitsFrom radix p s read with
  | case1 => exact h
  | case2 _ _ _ _ hc _ ih => exact ih (h.next hc)
  | case3 _ _ _ _ hc _ _ _ ih => exact ih ((h.next hc).record rfl hp)
  | case4 _ _ _ _ hc _ _ _ ih =>
      exact ih (((h.next hc).record rfl hp).error (h.next hc).here _)
  | case5 => exact h

theorem digits (h : Reads true r s) (radix : Nat) (hp : p.Located r.text) :
    Reads true r (s.digits radix p).2 := h.digitsFrom radix hp []

theorem radixNumeral (h : Reads true r s) (radix : Radix) (hp : p.Located r.text) :
    Reads true r (s.radixNumeral radix p).2 := by
  have hf : Reads true r (radix.feature?.elim s (s.record · p)) := by
    cases radix with
    | binary | octal => exact h.record rfl hp
    | hexadecimal => exact h
  unfold Lexer.radixNumeral
  dsimp only
  have hd {a : Prop} [Decidable a] (m : LexicalProblem) (n : Nat) := digits (p := p)
    (ite (a := a) (fun _ => hf) fun _ => hf.error hf.here m) n hp
  refine ite_snd (fun hn => nextIf ?_ hn) fun _ => ?_ <;>
    exact ite (fun _ => skipAll (error (hd _ _) (hd _ _).here _) _) fun _ => hd _ _

theorem legacyNumeral (h : Reads true r s) (hp : p.Located r.text) :
    Reads true r (s.legacyNumeral p).2 := by
  have ht := h.skipAll Char.isDigit
  unfold Lexer.legacyNumeral
  dsimp only
  generalize s.skipWhile Char.isDigit = t at ht ⊢
  have hu (b : Bool) : Reads true r (if b && t.nextIs (· == '.') then
      t.advance.skipWhile Char.isDigit else t) :=
    ite (fun hq => (ht.nextIf (Bool.and_eq_true_iff.mp hq).2).skipAll _) fun _ => ht
  exact ite_snd (fun hn => ((hu _).nextIf hn).error ((hu _).nextIf hn).here _)
    fun _ => ite_snd (fun _ => (hu _).report hp _ _) fun _ => hu _

theorem exponentPart (h : Reads true r s) (hp : p.Located r.text) :
    Reads true r (s.exponentPart p).2 := by
  unfold Lexer.exponentPart
  dsimp only
  refine ite_snd (fun he => ?_) fun _ => h
  have hs := ite (a := s.advance.nextIs (fun c => c == '+' || c == '-') = true)
    (fun hsign => (h.nextIf he).nextIf hsign) fun _ => h.nextIf he
  exact digits (ite (fun _ => hs) fun _ => hs.error hs.here _) _ hp

theorem decimalNumeral (h : Reads true r s) (first : Char) (hp : p.Located r.text) :
    Reads true r (s.decimalNumeral first p).2 := by
  have hw : Reads true r (if first == '.' then (['0'], s) else
      (first :: (s.digits 10 p).1, (s.digits 10 p).2)).2 :=
    ite_snd (fun _ => h) fun _ => h.digits 10 hp
  unfold Lexer.decimalNumeral
  dsimp only
  generalize (if first == '.' then (['0'], s) else
    (first :: (s.digits 10 p).1, (s.digits 10 p).2)) = w at hw ⊢
  have hv : Reads true r (if first != '.' && w.2.nextIs (· == '.') then w.2.advance else w.2) :=
    ite (fun hq => hw.nextIf (Bool.and_eq_true_iff.mp hq).2) fun _ => hw
  generalize (if first != '.' && w.2.nextIs (· == '.') then w.2.advance else w.2) = v at hv ⊢
  have he {a : Prop} [Decidable a] := exponentPart (p := p)
    (ite_snd (a := a) (y := (([] : List Char), v)) (fun _ => hv.digits 10 hp) fun _ => hv) hp
  exact ite_snd (fun hn => ite (fun _ => (he.nextIf hn).error hp _) fun _ => he.nextIf hn) fun _ => he

/-- Every form of number. -/
theorem numeral (h : Reads true r s) (first : Char) (hp : p.Located r.text) :
    Reads true r (s.numeral first p).2 := by
  unfold Lexer.numeral
  split
  · split
    next radix hr =>
      obtain ⟨c, rest, hc, -⟩ := exists_of_peek_bind hr
      exact (h.next hc).radixNumeral _ hp
    next => exact ite_snd (fun _ => h.legacyNumeral hp) fun _ => h.decimalNumeral _ hp
  · exact h.decimalNumeral _ hp

/-! ## Names -/

/-- The escape behind a backslash. -/
theorem escape (h : Reads breaks r s) (hc : s.rest = c :: rest) (hb : (c == '\\') = true)
    (hu : s.advance.nextIs (· == 'u') = true) :
    Reads breaks r (s.advance.advance.unicodeEscapeOrReport .invalidEscape).2 := by
  obtain ⟨d, tail, hd, hu⟩ := exists_of_nextIs hu
  have ha := h.advance hc fun _ => by rw [eq_of_beq hb]; rfl
  exact (ha.advance hd fun _ => by rw [eq_of_beq hu]; rfl).unicodeEscapeOrReport _

theorem nameRest (h : Reads breaks r s) (read : List Char) (escaped : Bool) :
    Reads breaks r (s.nameRest read escaped).2 := by
  fun_induction Lexer.nameRest s read escaped with
  | case1 => exact h
  | case2 _ _ _ _ _ hc hn ih => exact ih (h.advance hc fun _ => isLineTerminator_of_isNamePart hn)
  | case3 s _ _ c rest hc _ hb hu _ _ heq _ ih =>
      have he := escape h hc hb hu
      rw [heq] at he
      exact ih he
  | case4 s _ _ c rest hc _ hb hu _ _ heq _ =>
      have he := escape h hc hb hu
      rw [heq] at he
      exact he.error he.here _
  | case5 s _ _ c rest hc _ hb hu _ heq =>
      have he := escape h hc hb hu
      rw [heq] at he
      exact he
  | case6 s _ _ c rest hc _ hb hu =>
      have ha := h.advance hc fun _ => by rw [eq_of_beq hb]; rfl
      exact ha.error ha.here _
  | case7 => exact h

theorem recoverName (h : Reads breaks r s) (hp : p.offset ≤ r.position.offset) :
    Reads breaks r (s.recoverName p).2 := by
  have hw : Reads breaks r (s.skipWhile fun c => isNamePart c || c == '\\') := by
    refine h.skipWhile fun _ c hc => ?_
    obtain hn | hb := Bool.or_eq_true_iff.mp hc
    · exact isLineTerminator_of_isNamePart hn
    · rw [eq_of_beq hb]; rfl
  exact hw.cutSince (Nat.le_trans hp hw.forward)

theorem nameFrom (h : Reads breaks r s) (first : Char) (escaped : Bool)
    (hp : p.offset ≤ r.position.offset) : Reads breaks r (s.nameFrom first escaped p).2 := by
  have hn := h.nameRest [first] escaped
  unfold Lexer.nameFrom
  split
  next heq => rw [heq] at hn; exact hn
  next heq => rw [heq] at hn; exact hn.recoverName hp

theorem escapedName (h : Reads breaks r s) (hl : p.Located r.text)
    (hp : p.offset ≤ r.position.offset) : Reads breaks r (s.escapedName p).2 := by
  unfold Lexer.escapedName
  dsimp only
  split
  next hu =>
    obtain ⟨d, tail, hd, hu⟩ := exists_of_nextIs hu
    have he := (h.advance hd fun _ => by rw [eq_of_beq hu]; rfl).unicodeEscapeOrReport .invalidEscape
    split
    next heq =>
      rw [heq] at he
      exact ite_snd (fun _ => he.nameFrom _ _ hp) fun _ => (he.error hl _).recoverName hp
    next heq => rw [heq] at he; exact he.recoverName hp
  next => exact (h.error h.here _).recoverName hp

theorem nameToken (h : Reads breaks r s) (c : Char) (hl : p.Located r.text)
    (hp : p.offset ≤ r.position.offset) : Reads breaks r (s.nameToken c p).2 :=
  ite_snd (fun _ => h.escapedName hl hp) fun _ => h.nameFrom c false hp

theorem privateName (h : Reads true r s) : Reads true r s.privateName.2 := by
  unfold Lexer.privateName
  split
  next => exact h
  next c rest hc =>
    have hn := (start h.sound).next hc
    exact h.trans (hn.nameToken c h.sound.place (Nat.le_refl _))

end Reads

/-! ## Kinds of tokens -/

/-- The problems of a draft stand at places of the text. -/
def TemplateDraft.Located (text : List Char) (d : TemplateDraft) : Prop :=
  ∀ x ∈ d.problems, x.position.Located text

namespace TemplateDraft.Located

variable {text : List Char} {d : TemplateDraft} {p : Position}

theorem write (h : d.Located text) (cs : List Char) : (d.write cs).Located text := h

theorem fault (h : d.Located text) (hp : p.Located text) (m : LexicalProblem) :
    (d.fault p m).Located text := List.forall_mem_cons.mpr ⟨hp, h⟩

theorem doubt (h : d.Located text) (hp : p.Located text) (m : LexicalProblem) :
    (d.doubt p m).Located text := List.forall_mem_cons.mpr ⟨hp, h⟩

theorem finish (h : d.Located text) (hp : p.Located text) (tail : Bool) :
    (TokenKind.template (d.finish p tail)).Located text := by
  intro x hx
  replace hx := List.mem_reverse.mp hx
  split at hx
  · obtain rfl | hx := List.mem_cons.mp hx
    · exact hp
    · exact h x hx
  · exact h x hx

/-- To write down what is read adds no problem. -/
theorem writes {α : Type} {s : Lexer} {answer : α × Lexer} {written : α × TemplateDraft × Lexer}
    (h : d.Located text) (hw : s.Writes d answer written) : written.2.1.Located text := by
  obtain ⟨read, -, -, rfl⟩ := hw
  exact h.write read

theorem templateEscape (h : d.Located text) (hp : p.Located text) (s : Lexer) (c : Char) :
    (s.templateEscape p c d).1.Located text := by
  have hh := (h.write [c]).writes (writes_hexDigits 2 s.advance 0 (d.write [c]))
  have hu := (h.write [c]).writes (s.advance.writes_unicodeEscape (d.write [c]))
  simp only [Lexer.templateEscape]
  split
  · exact h
  · split
    · exact h
    · split
      · exact h
      · split
        · exact fault h hp _
        · split
          · split
            next heq => rw [heq] at hh; exact hh
            next heq => rw [heq] at hh; exact fault hh hp _
          · split
            · split
              next heq => rw [heq] at hu; exact hu
              next heq => rw [heq] at hu; exact fault hu hp _
            · split
              · exact doubt h hp _
              · exact doubt h hp _

theorem templateBody {s r : Lexer} (hs : Reads true r s) (h : d.Located r.text) :
    (Lexer.templateBody p s d).1.Located r.text := by
  fun_induction Lexer.templateBody p s d with
  | case1 => exact h
  | case2 => exact h
  | case3 => exact h
  | case4 _ _ _ _ hc _ _ _ ih => exact ih (hs.skipLineBreak hc) h
  | case5 _ _ _ _ hc _ _ _ _ _ ih => exact ih (hs.next hc) h
  | case6 _ _ _ _ hc _ _ _ _ _ _ he _ ih => exact ih ((hs.next hc).skipLineBreak he) h
  | case7 _ _ _ _ hc _ _ _ _ _ _ he _ ih =>
      exact ih ((hs.next hc).templateEscape _ he _) ((h.write _).templateEscape hs.here _ _)
  | case8 _ _ _ _ hc _ _ _ _ ih => exact ih (hs.next hc) h

end TemplateDraft.Located

theorem located_templatePart {r s : Lexer} {p : Position} (hs : Reads true r s)
    (hp : p.Located r.text) : (TokenKind.template (s.templatePart p).1).Located r.text :=
  (TemplateDraft.Located.templateBody (d := {}) hs fun _ hx => absurd hx List.not_mem_nil).finish hp _

theorem isPlain_ite {x y : TokenKind × Lexer} {a : Prop} [Decidable a]
    (hx : x.1.isPlain = true) (hy : y.1.isPlain = true) :
    (if a then x else y).1.isPlain = true := by
  split
  · exact hx
  · exact hy

theorem isPlain_radixNumeral (s : Lexer) (radix : Radix) (p : Position) :
    (s.radixNumeral radix p).1.isPlain = true := by
  unfold radixNumeral
  exact isPlain_ite rfl rfl

theorem isPlain_legacyNumeral (s : Lexer) (p : Position) : (s.legacyNumeral p).1.isPlain = true := by
  unfold legacyNumeral
  exact isPlain_ite rfl (isPlain_ite rfl rfl)

theorem isPlain_decimalNumeral (s : Lexer) (first : Char) (p : Position) :
    (s.decimalNumeral first p).1.isPlain = true := by
  unfold decimalNumeral
  exact isPlain_ite rfl rfl

theorem isPlain_numeral (s : Lexer) (first : Char) (p : Position) :
    (s.numeral first p).1.isPlain = true := by
  unfold numeral
  split
  · split
    · exact isPlain_radixNumeral _ _ _
    · split
      · exact isPlain_legacyNumeral _ _
      · exact isPlain_decimalNumeral _ _ _
  · exact isPlain_decimalNumeral _ _ _

theorem nameFrom_kind (s : Lexer) (c : Char) (escaped : Bool) (p : Position) :
    (s.nameFrom c escaped p).1.1.isPlain = true ∨ ∃ w, (s.nameFrom c escaped p).1.1 = .keyword w := by
  unfold nameFrom
  split
  next read escaped t heq =>
    dsimp only
    unfold classifyName
    split
    next w hw => exact Or.inr ⟨w, rfl⟩
    next => exact Or.inl rfl
  next => exact Or.inl rfl

/-- A name or a reserved word. -/
theorem nameToken_kind (s : Lexer) (c : Char) (p : Position) :
    (s.nameToken c p).1.1.isPlain = true ∨ ∃ w, (s.nameToken c p).1.1 = .keyword w := by
  unfold nameToken
  split
  · unfold escapedName
    dsimp only
    split
    · split
      · split
        · exact nameFrom_kind _ _ _ _
        · exact Or.inl rfl
      · exact Or.inl rfl
    · exact Or.inl rfl
  · exact nameFrom_kind _ _ _ _

theorem isPlain_privateName (s : Lexer) : s.privateName.1.1.isPlain = true := by
  unfold privateName
  split <;> rfl

/-! ## From one character to a token -/

/-- The token of kind `k` was read from the state `s`, of which at least one character is left, to the
state `t`. -/
structure Scans (s : Lexer) (k : TokenKind) (t : Lexer) : Prop where
  reads : Reads true s t
  more : s.position.offset < t.position.offset
  kind : k.Located s.text
  nonempty : k ≠ .endOfText
  level : ∀ w, k = .keyword w → Reads false s t
  spelled : ∀ mark, k = .punctuator mark →
    mark.Spells (t.position.offset - s.position.offset) s.rest

namespace Scans

variable {s t : Lexer} {k : TokenKind} {c : Char} {rest : List Char}

/-- What is read behind the first character is more than nothing. -/
theorem lt_of_reads (hc : s.rest = c :: rest) (ht : Reads true s.advance t) :
    s.position.offset < t.position.offset := by
  refine Nat.lt_of_lt_of_le ?_ ht.forward
  rw [advance_cons hc, Position.offset_after]
  exact Nat.lt_succ_self _

theorem of_isPlain (h : s.Sound) (hc : s.rest = c :: rest) (ht : Reads true s.advance t)
    (hk : k.isPlain = true) : Scans s k t := by
  refine ⟨((Reads.refl h).next hc).trans ht, lt_of_reads hc ht, ?_, ?_, ?_, ?_⟩
  · cases k <;> trivial
  · rintro rfl; cases hk
  · rintro w rfl; cases hk
  · rintro w rfl; cases hk

theorem of_spells (h : s.Sound) (hc : s.rest = c :: rest) {mark : Punctuator} {n : Nat}
    (hm : mark.Spells (n + 1) s.rest) : Scans s (.punctuator mark) (s.advance.advanceBy n) := by
  have ha := (Reads.start h).next hc
  have hn := hm.bounds.2
  rw [hc, List.length_cons] at hn
  have ht := (Reads.start ha.sound).advanceBy (n := n) (by rw [rest_advance hc]; omega)
  refine ⟨ha.trans ht, lt_of_reads hc ht, trivial, nofun, nofun, fun w hw => ?_⟩
  cases hw
  have ho : (s.advanceBy (n + 1)).position.offset = s.position.offset + (n + 1) :=
    offset_advanceBy hm.bounds.2
  rw [show s.advance.advanceBy n = s.advanceBy (n + 1) from rfl, ho, Nat.add_sub_cancel_left]
  exact hm

theorem of_template (h : s.Sound) (hc : s.rest = c :: rest) :
    Scans s (.template (s.advance.templatePart s.position).1)
      (s.advance.templatePart s.position).2 := by
  have hs := (Reads.start h).next hc
  have ha := Reads.start hs.sound
  have hp : s.position.Located s.advance.text := hs.text ▸ h.place
  exact ⟨hs.trans (ha.templatePart hp), lt_of_reads hc (ha.templatePart hp),
    located_templatePart hs h.place, nofun, nofun, nofun⟩

theorem scan (h : s.Sound) (hc : s.rest = c :: rest) (hl : isLineTerminator c = false) :
    Scans s (s.scan c).1.1 (s.scan c).2 := by
  have hs := (Reads.start h).next hc
  have ha := Reads.start hs.sound
  have hp : s.position.Located s.advance.text := hs.text ▸ h.place
  unfold Lexer.scan
  dsimp only
  split
  · exact of_template h hc
  · split
    · exact of_isPlain h hc (ha.stringLiteral _ hp) rfl
    · split
      · exact of_isPlain h hc ha.privateName (isPlain_privateName _)
      · split
        · exact of_isPlain h hc (ha.numeral _ hp) (isPlain_numeral _ _ _)
        · split
          next mark size hm =>
            have hspells := Punctuator.spells_of_atStart? hm
            obtain ⟨n, rfl⟩ : ∃ n, size = n + 1 := Nat.exists_eq_add_one.mpr hspells.bounds.1
            exact of_spells h hc hspells
          next =>
            have hr := ha.nameToken c hp hs.forward
            obtain hk | ⟨w, hw⟩ := s.advance.nameToken_kind c s.position
            · exact of_isPlain h hc hr hk
            · have hf : Reads false s s.advance := (Reads.refl h).advance hc fun _ => hl
              refine ⟨hs.trans hr, lt_of_reads hc hr, ?_, ?_, fun _ _ =>
                hf.nameToken c h.place (Nat.le_refl _), ?_⟩
              · rw [hw]; trivial
              · rw [hw]; nofun
              · rw [hw]; nofun

/-- A token is one of the text. -/
theorem located_finish (h : Scans s k t) (hs : s.Sound) (newline escaped : Bool) :
    (t.finish k s.position newline escaped).Located s.text := by
  have hm := h.more
  refine ⟨Span.located_between hs.place h.reads.here.offset_le, h.kind,
    fun _ => Nat.sub_pos_of_lt hm, fun w hw => ?_⟩
  have hl := (h.level w hw).level rfl
  show Position.Located s.text
    ⟨s.position.line, s.position.column + (t.position.offset - s.position.offset),
      (Span.between s.position t.position.offset).stop⟩
  rw [Span.stop_between (Nat.le_of_lt hm), ← hl]
  exact h.reads.here

/-- It is spelled like a mark if it is one. -/
theorem spelled_finish (h : Scans s k t) (hs : s.Sound) (newline escaped : Bool) :
    (t.finish k s.position newline escaped).Spelled s.text := by
  intro mark hk
  show mark.Spells (t.position.offset - s.position.offset) (s.text.drop s.position.offset)
  rw [← hs.rest]
  exact h.spelled mark hk

/-- It ends where the lexer has come to. -/
theorem stop_finish (h : Scans s k t) (newline escaped : Bool) :
    (t.finish k s.position newline escaped).span.stop = t.position.offset :=
  Span.stop_between (Nat.le_of_lt h.more)

end Scans

/-- The end of the text is a token of it. -/
theorem located_finish_end {s : Lexer} (h : s.Sound) (newline escaped : Bool) :
    (s.finish .endOfText s.position newline escaped).Located s.text :=
  ⟨Span.located_between h.place h.place.offset_le, trivial, nofun, nofun⟩

/-! ## Reading again -/

/-- Asked for a token, the lexer `s` gives one of its text and stays sound. -/
structure Gives (s : Lexer) (answer : Token × Lexer) : Prop where
  sound : answer.2.Sound
  text : answer.2.text = s.text
  token : answer.1.Located s.text

theorem Sound.rewind {s : Lexer} {p : Position} (h : s.Sound) (hp : p.Located s.text) :
    (s.rewind p).Sound := ⟨rfl, hp, h.overrun, h.comments, h.diagnostics, h.features⟩

/-- A token that is not the end of the text has a first character. -/
theorem rest_rewind {s : Lexer} {t : Token} (ht : t.Located s.text) (he : t.isEnd = false) :
    ∃ c rest, (s.rewind t.start).rest = c :: rest := by
  have hp := ht.pos he
  have hs := ht.span.2
  refine List.exists_cons_of_length_pos ?_
  show 0 < (s.text.drop t.span.offset).length
  rw [List.length_drop]
  unfold Span.stop at hs
  omega

theorem gives_rescanRegExp {s : Lexer} {slash : Token} (h : s.Sound) (ht : slash.Located s.text)
    (he : slash.isEnd = false) : Gives s (s.rescanRegExp slash) := by
  have hr := h.rewind ht.span.1
  obtain ⟨c, rest, hc⟩ := rest_rewind ht he
  have ha := (Reads.start hr).next hc
  have hs (pattern flags : String) := Scans.of_isPlain (k := .regexp pattern flags) hr hc
    (Reads.refl ha.sound).regExpLiteral rfl
  exact ⟨(hs "" "").reads.sound, (hs "" "").reads.text, (hs _ _).located_finish hr _ _⟩

theorem gives_rescanTemplate {s : Lexer} {brace : Token} (h : s.Sound) (ht : brace.Located s.text)
    (he : brace.isEnd = false) : Gives s (s.rescanTemplate brace) := by
  have hr := h.rewind ht.span.1
  obtain ⟨c, rest, hc⟩ := rest_rewind ht he
  have hs := Scans.of_template hr hc
  exact ⟨hs.reads.sound, hs.reads.text, hs.located_finish hr _ _⟩

/-- What the token `t` is read again as: a token from the same place on, no shorter than it, behind
which the lexer goes on. -/
structure Rereads (t : Token) (answer : Token × Lexer) : Prop where
  offset : answer.1.span.offset = t.span.offset
  reach : t.span.stop ≤ answer.1.span.stop
  stop : answer.1.span.stop = answer.2.position.offset
  isMark : ∀ mark, answer.1.kind ≠ .punctuator mark
  isEnd : answer.1.isEnd = false

/-- A mark of one character is not longer than any token. -/
theorem stop_le_of_spelled {text : List Char} {t : Token} {mark : Punctuator} {n : Nat}
    (h : t.Spelled text) (hm : t.isMark mark = true)
    (hone : ∀ m ∈ Punctuator.longestFirst, m.2 = mark → m.1.length = 1)
    (hn : t.span.offset < n) :
    t.span.stop ≤ n := by
  obtain ⟨word, hmem, hlen, -⟩ := h mark (Token.kind_of_isMark hm)
  have hw : word.length = 1 := hone _ hmem rfl
  unfold Span.stop
  omega

/-- A sign of equality belongs to the pattern. -/
theorem lt_regExpLiteral {s : Lexer} {rest : List Char} (h : s.Sound) (hc : s.rest = '=' :: rest) :
    s.position.offset < s.regExpLiteral.2.position.offset := by
  have ha := (Reads.start h).next hc
  have hb : s.regExpBody false [] = s.advance.regExpBody false ['='] := by
    rw [regExpBody]
    split
    next heq => rw [hc] at heq; cases heq
    next heq => rw [hc] at heq; cases heq; rfl
  have hr := ((Reads.start ha.sound).regExpBody false ['=']).skipAll isNamePart
  refine Nat.lt_of_lt_of_le (m := s.advance.position.offset) ?_ ?_
  · rw [advance_cons hc, Position.offset_after]
    exact Nat.lt_succ_self _
  · unfold Lexer.regExpLiteral
    rw [hb]
    exact hr.forward

theorem rereads_rescanRegExp {s : Lexer} {slash : Token} (h : s.Sound) (ht : slash.Located s.text)
    (hspelled : slash.Spelled s.text)
    (hm : slash.isMark .slash = true ∨ slash.isMark .slashAssign = true) :
    Rereads slash (s.rescanRegExp slash) := by
  have he : slash.isEnd = false := hm.elim Token.isEnd_of_isMark Token.isEnd_of_isMark
  have hr := h.rewind ht.span.1
  obtain ⟨c, rest, hc⟩ := rest_rewind ht he
  have ha := (Reads.start hr).next hc
  have hs (pattern flags : String) := Scans.of_isPlain (k := .regexp pattern flags) hr hc
    (Reads.refl ha.sound).regExpLiteral rfl
  have hstop : (s.rescanRegExp slash).1.span.stop = (s.rescanRegExp slash).2.position.offset :=
    (hs _ _).stop_finish _ _
  refine ⟨rfl, ?_, hstop, fun _ h => TokenKind.noConfusion h, rfl⟩
  rw [hstop]
  obtain hm | hm := hm
  · exact stop_le_of_spelled hspelled hm (by decide) (hs "" "").more
  · obtain ⟨word, hmem, hlen, tail, htail⟩ := hspelled _ (Token.kind_of_isMark hm)
    have hword : ∀ m ∈ Punctuator.longestFirst, m.2 = .slashAssign → m.1 = ['/', '='] := by
      decide
    rw [show word = ['/', '='] from hword _ hmem rfl] at hlen htail
    have hrest : (s.rewind slash.span.start).rest = '/' :: '=' :: tail := htail.symm
    have hnext : (s.rewind slash.span.start).advance.rest = '=' :: tail := rest_advance hrest
    have hlt := lt_regExpLiteral ha.sound hnext
    have ho : (s.rewind slash.span.start).advance.position.offset = slash.span.offset + 1 := by
      rw [advance_cons hrest]
      exact Position.offset_after _ _ _
    rw [ho] at hlt
    show slash.span.offset + slash.span.length ≤ _
    rw [← hlen]
    exact hlt

theorem rereads_rescanTemplate {s : Lexer} {brace : Token} (h : s.Sound) (ht : brace.Located s.text)
    (hspelled : brace.Spelled s.text) (hm : brace.isMark .rightBrace = true) :
    Rereads brace (s.rescanTemplate brace) := by
  have hr := h.rewind ht.span.1
  obtain ⟨c, rest, hc⟩ := rest_rewind ht (Token.isEnd_of_isMark hm)
  have hs := Scans.of_template hr hc
  have hstop : (s.rescanTemplate brace).1.span.stop = (s.rescanTemplate brace).2.position.offset :=
    hs.stop_finish _ _
  refine ⟨rfl, ?_, hstop, fun _ h => TokenKind.noConfusion h, rfl⟩
  rw [hstop]
  exact stop_le_of_spelled hspelled hm (by decide) hs.more

/-! ## Remembered states and notes that are taken over -/

/-- A remembered state of a lexer over the text. -/
structure Checkpoint.Located (text : List Char) (c : Checkpoint) : Prop where
  rest : c.rest = text.drop c.position.offset
  place : c.position.Located text

theorem mem_of_mem_take {α : Type} {xs : Array α} {n : Nat} {x : α} (h : x ∈ xs.take n) : x ∈ xs := by
  rw [Array.take_eq_extract, ← Array.mem_toList_iff, Array.toList_extract] at h
  exact Array.mem_toList_iff.mp (List.mem_of_mem_drop (List.mem_of_mem_take h))

namespace Sound

variable {s : Lexer}

theorem save (h : s.Sound) : s.save.Located s.text := ⟨h.rest, h.place⟩

theorem restore (h : s.Sound) {c : Checkpoint} (hc : c.Located s.text) : (s.restore c).Sound :=
  ⟨hc.rest, hc.place, h.overrun, fun x hx => h.comments x (mem_of_mem_take hx),
    fun x hx => h.diagnostics x (mem_of_mem_take hx), fun x hx => h.features x (mem_of_mem_take hx)⟩

theorem takeComments (h : s.Sound) : s.takeComments.2.Sound := { h with comments := nofun }

theorem takeDiagnostics (h : s.Sound) : s.takeDiagnostics.2.Sound :=
  { h with diagnostics := nofun }

theorem takeFeatures (h : s.Sound) : s.takeFeatures.2.Sound := { h with features := nofun }

end Sound

end Lexer

end EcmaScript
