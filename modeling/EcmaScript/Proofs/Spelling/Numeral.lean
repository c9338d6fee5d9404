import EcmaScript.Proofs.Spelling.Escape
import EcmaScript.Proofs.Spelling.Token
import Mathlib.Data.List.Forall2
import Mathlib.Data.Option.Basic

/-!
# Numeric literals and their separators

An integer literal has the value of its digits, and a single underscore between two digits changes nothing but the
features. One loop reads the digits of all numeric literals. It is called behind a radix mark, behind the first
character of a literal, behind a point and behind the mark of an exponent, and only in the second of these places
can the loop meet an underscore first: the digit before it has been read already. So what the loop reads are
`FurtherDigits`, each with or without an underscore before it, and a row of digits without a leading
underscore (`Separated`) is a case of them.

## Contents

* `FurtherDigits`, `Separated`: rows of digits with underscores between them.
* `DecimalLiteral`: a decimal literal in its parts.
* `Lexer.exists_digits`: the loop.
* `Lexer.exists_radixNumeral`, `Lexer.exists_decimalNumeral_digit`: the readers of literals.
* `Lexer.tokens_numeral`: literals as whole texts.
-/

namespace EcmaScript

/-! ## Literals -/

/-- Digits, each of them with or without one underscore before it, and the same digits alone. -/
inductive FurtherDigits : List Char → List Char → Prop where
  | nil : FurtherDigits [] []
  | digit {c : Char} {digits written : List Char} : FurtherDigits digits written →
      FurtherDigits (c :: digits) (c :: written)
  | separated {c : Char} {digits written : List Char} : FurtherDigits digits written →
      FurtherDigits (c :: digits) ('_' :: c :: written)

/-- Digits, and the same digits with at most one underscore between any two neighbours. -/
inductive Separated : List Char → List Char → Prop where
  | nil : Separated [] []
  | cons {c : Char} {digits written : List Char} : FurtherDigits digits written →
      Separated (c :: digits) (c :: written)

theorem FurtherDigits.refl (digits : List Char) : FurtherDigits digits digits := by
  induction digits with
  | nil => exact .nil
  | cons c digits ih => exact .digit ih

theorem Separated.refl (digits : List Char) : Separated digits digits := by
  cases digits with
  | nil => exact .nil
  | cons c digits => exact .cons (.refl digits)

theorem Separated.further {digits written : List Char} (h : Separated digits written) :
    FurtherDigits digits written := by
  cases h with
  | nil => exact .nil
  | cons h => exact .digit h

/-- The radices with the marks that select them. -/
def radixMarks : List (Nat × List Char) :=
  [(2, ['0', 'b']), (2, ['0', 'B']), (8, ['0', 'o']), (8, ['0', 'O']), (10, []), (16, ['0', 'x']), (16, ['0', 'X'])]

/-- The exponent of a decimal literal: its mark, its sign and its digits. -/
structure ExponentPart where
  mark : Char
  sign : List Char
  digits : List Char

/-- A decimal literal in its parts. -/
structure DecimalLiteral where
  /-- What stands before the point. -/
  whole : List Char
  /-- What stands behind the point, if there is a point. -/
  fraction : Option (List Char)
  exponent : Option ExponentPart

def ExponentPart.chars (e : ExponentPart) : List Char := e.mark :: (e.sign ++ e.digits)

/-- The size of the exponent with its sign. -/
def ExponentPart.value (e : ExponentPart) : Int :=
  if e.sign = ['-'] then -Lexer.exponentSize e.digits else Lexer.exponentSize e.digits

structure ExponentPart.WellFormed (e : ExponentPart) : Prop where
  mark : e.mark = 'e' ∨ e.mark = 'E'
  sign : e.sign = [] ∨ e.sign = ['+'] ∨ e.sign = ['-']
  nonempty : e.digits ≠ []
  digits : ∀ c ∈ e.digits, c.isDigit = true

/-- The second exponent is the first one with single underscores between digits. -/
structure ExponentPart.Separates (e written : ExponentPart) : Prop where
  mark : written.mark = e.mark
  sign : written.sign = e.sign
  digits : Separated e.digits written.digits

namespace DecimalLiteral

/-- The point and what stands behind it. -/
def fractionChars (l : DecimalLiteral) : List Char := l.fraction.elim [] ('.' :: ·)

def exponentChars (l : DecimalLiteral) : List Char := l.exponent.elim [] (·.chars)

/-- The literal as a text. -/
def chars (l : DecimalLiteral) : List Char := l.whole ++ l.fractionChars ++ l.exponentChars

/-- The number nearest to what is written. -/
def value (l : DecimalLiteral) : Double :=
  .ofScientific (digitsValue 10 (l.whole ++ l.fraction.getD []))
    ((l.exponent.map (·.value)).getD 0 - (l.fraction.getD []).length)

/-- The parts make up a decimal literal. Before the point there is a zero alone, or digits that start with none, or
nothing if there are digits behind the point. -/
structure WellFormed (l : DecimalLiteral) : Prop where
  digits : ∀ c ∈ l.whole ++ l.fraction.getD [], c.isDigit = true
  start : l.whole = ['0'] ∨ (l.whole ≠ [] ∧ l.whole.head? ≠ some '0') ∨
    l.whole = [] ∧ ∃ fraction, l.fraction = some fraction ∧ fraction ≠ []
  exponent : ∀ e ∈ l.exponent, e.WellFormed

theorem WellFormed.underscore_notMem {l : DecimalLiteral} (hl : l.WellFormed) : '_' ∉ l.chars := by
  have hne {cs : List Char} (hcs : ∀ c ∈ cs, c.isDigit = true) : '_' ∉ cs := fun h => by cases hcs _ h
  have hwhole : '_' ∉ l.whole := hne fun c hc => hl.digits c (List.mem_append_left _ hc)
  have hfraction : '_' ∉ l.fractionChars := by
    have hdigits := hne fun c hc => hl.digits c (List.mem_append_right _ hc)
    unfold fractionChars
    cases hf : l.fraction with
    | none => exact List.not_mem_nil
    | some fraction => simpa [hf] using hdigits
  have hexponent : '_' ∉ l.exponentChars := by
    unfold exponentChars
    cases he : l.exponent with
    | none => exact List.not_mem_nil
    | some e =>
        obtain ⟨hmark, hsign, -, hdigits⟩ := hl.exponent e he
        have hdigits := hne hdigits
        rcases hmark with hmark | hmark <;> rcases hsign with hsign | hsign | hsign <;>
          simp [ExponentPart.chars, hmark, hsign, hdigits]
  simp [chars, hwhole, hfraction, hexponent]

/-- The second literal is the first one with single underscores between digits. -/
structure Separates (l written : DecimalLiteral) : Prop where
  whole : Separated l.whole written.whole
  fraction : Option.Rel Separated l.fraction written.fraction
  exponent : Option.Rel ExponentPart.Separates l.exponent written.exponent

theorem Separates.refl (l : DecimalLiteral) : l.Separates l := by
  refine ⟨.refl _, ?_, ?_⟩
  · cases l.fraction with
    | none => exact .none
    | some fraction => exact .some (.refl fraction)
  · cases l.exponent with
    | none => exact .none
    | some e => exact .some ⟨rfl, rfl, .refl e.digits⟩

end DecimalLiteral

/-! ## Values -/

/-- A hexadecimal digit is one of any radix that its value lies below. -/
theorem digitValue?_of_lt {radix d : Nat} {c : Char} (h : digitValue? 16 c = some d) (hd : d < radix) :
    digitValue? radix c = some d := by
  have hsame {v : Nat} (hv : (if v < 16 then some v else none) = some d) :
      (if v < radix then some v else none) = some d := by
    split at hv
    · cases hv
      exact if_pos hd
    · cases hv
  unfold digitValue? at h ⊢
  dsimp only at h ⊢
  split at h
  next hdigit =>
    rw [if_pos hdigit]
    exact hsame h
  next hdigit =>
    rw [if_neg hdigit]
    split at h
    next hlower =>
      rw [if_pos hlower]
      exact hsame h
    next hlower =>
      rw [if_neg hlower]
      split at h
      next hupper =>
        rw [if_pos hupper]
        exact hsame h
      next => cases h

theorem isDigitOf_of_digitValue? {radix d : Nat} {c : Char} (h : digitValue? radix c = some d) :
    isDigitOf radix c = true := by
  unfold isDigitOf
  rw [h]
  rfl

theorem isDigitOf_of_forall₂ {radix : Nat} {digits : List Nat} {cs : List Char}
    (h : List.Forall₂ (fun d c => digitValue? radix c = some d) digits cs) : ∀ c ∈ cs, isDigitOf radix c = true := by
  induction h with
  | nil => exact nofun
  | cons hd _ ih => exact List.forall_mem_cons.mpr ⟨isDigitOf_of_digitValue? hd, ih⟩

theorem isDigitOf_underscore (radix : Nat) : isDigitOf radix '_' = false := by
  simp [isDigitOf, digitValue?]

theorem isDigitOf_ten (c : Char) : isDigitOf 10 c = c.isDigit := by
  unfold isDigitOf digitValue?
  dsimp only
  by_cases hc : c.isDigit = true
  · have hle : c.toNat ≤ '9'.toNat := by
      simp only [Char.isDigit, Bool.and_eq_true, decide_eq_true_eq] at hc
      exact hc.2
    rw [if_pos hc, hc, if_pos (by simp at hle ⊢; omega)]
    rfl
  · rw [if_neg hc, Bool.eq_false_iff.mpr hc]
    split
    · rw [if_neg (by omega)]
      rfl
    · split
      · rw [if_neg (by omega)]
        rfl
      · rfl

/-- Digits have their positional value. -/
theorem digitsValue_eq_ofDigits {radix : Nat} {digits : List Nat} {cs : List Char}
    (h : List.Forall₂ (fun d c => digitValue? radix c = some d) digits cs) :
    digitsValue radix cs = Nat.ofDigits radix digits.reverse := by
  have hfrom (n : Nat) : cs.foldl (fun n c => n * radix + (digitValue? radix c).getD 0) n =
      digits.foldl (fun n d => n * radix + d) n := by
    induction h generalizing n with
    | nil => rfl
    | cons hd _ ih =>
        rw [List.foldl_cons, List.foldl_cons, hd]
        exact ih _
  rw [← foldl_eq_ofDigits]
  exact hfrom 0

namespace Lexer

variable {s t u : Lexer} {c : Char} {radix : Nat} {digits written xs ys rest : List Char} {start : Position}

/-! ## Separators -/

/-- Over the characters the lexer came from one state to the other, objected to nothing, and noted one feature at
`start` for each underscore. -/
structure Separately (start : Position) (read : List Char) (s t : Lexer) : Prop extends Quietly read s t where
  features : t.features = s.features ++ Array.replicate (read.count '_') (.numericSeparator, start)

namespace Separately

theorem refl (start : Position) (s : Lexer) : Separately start [] s s := ⟨.refl s, by simp⟩

theorem trans (h : Separately start xs s t) (h' : Separately start ys t u) : Separately start (xs ++ ys) s u := by
  refine ⟨h.toQuietly.trans h'.toQuietly, ?_⟩
  rw [h'.features, h.features, Array.append_assoc, Array.replicate_append_replicate, List.count_append]

theorem advance (start : Position) (hs : s.rest = c :: rest) (hc : c ≠ '_') : Separately start [c] s s.advance := by
  refine ⟨.advance hs, ?_⟩
  rw [advance_cons hs]
  simp [hc]

theorem underscore (start : Position) (hs : s.rest = '_' :: rest) :
    Separately start ['_'] s (s.advance.record .numericSeparator start) := by
  refine ⟨(Quietly.advance hs).congr rfl rfl rfl, ?_⟩
  rw [advance_cons hs]
  simp [record]

theorem cons (hs : s.rest = c :: rest) (hc : c ≠ '_') (h : Separately start xs s.advance t) :
    Separately start (c :: xs) s t :=
  (advance start hs hc).trans h

end Separately

/-! ## The loop -/

theorem digitsFrom_digit (hs : s.rest = c :: rest) (hc : isDigitOf radix c = true) (read : List Char) :
    digitsFrom radix start s read = digitsFrom radix start s.advance (c :: read) := by
  rw [digitsFrom]
  split
  next hn => cases hs.symm.trans hn
  next heq => cases hs.symm.trans heq; rw [if_pos hc]

theorem digitsFrom_underscore (hs : s.rest = '_' :: c :: rest) (hc : isDigitOf radix c = true) (read : List Char) :
    digitsFrom radix start s read =
      digitsFrom radix start (s.advance.record .numericSeparator start) read := by
  rw [digitsFrom]
  split
  next hn => cases hs.symm.trans hn
  next heq =>
    cases hs.symm.trans heq
    have hnext : s.advance.nextIs (isDigitOf radix) = true := (nextIs_cons (rest_advance hs) _).trans hc
    rw [if_neg (by simp [isDigitOf_underscore]), if_pos (by decide), if_pos hnext]

/-- The loop ends in front of what is neither a digit nor an underscore. -/
theorem digitsFrom_stop (h : s.nextIs (fun c => isDigitOf radix c || c == '_') = false) (read : List Char) :
    digitsFrom radix start s read = (read, s) := by
  rw [digitsFrom]
  split
  next => rfl
  next c rest hs =>
    simp only [nextIs, hs, List.head?_cons, Option.any_some, Bool.or_eq_false_iff] at h
    rw [if_neg (by simp [h.1]), if_neg (by simp [h.2])]

/-- **The digits**, by induction on the row. -/
theorem exists_digitsFrom (h : FurtherDigits digits written) (hdigits : ∀ c ∈ digits, isDigitOf radix c = true)
    (hs : s.rest = written ++ rest) (hstop : rest.head?.any (fun c => isDigitOf radix c || c == '_') = false)
    (start : Position) (read : List Char) :
    ∃ t, digitsFrom radix start s read = (digits.reverse ++ read, t) ∧ Separately start written s t := by
  have hne (c : Char) (hc : isDigitOf radix c = true) : c ≠ '_' := by
    rintro rfl
    exact Bool.false_ne_true ((isDigitOf_underscore radix).symm.trans hc)
  induction h generalizing s read with
  | nil => exact ⟨s, digitsFrom_stop (by simpa [nextIs, hs] using hstop) read, .refl start s⟩
  | @digit c digits written _ ih =>
      obtain ⟨hc, hdigits⟩ := List.forall_mem_cons.mp hdigits
      obtain ⟨t, hread, ht⟩ := ih hdigits (rest_advance hs) (c :: read)
      refine ⟨t, ?_, .cons hs (hne c hc) ht⟩
      rw [digitsFrom_digit hs hc, hread]
      simp
  | @separated c digits written _ ih =>
      obtain ⟨hc, hdigits⟩ := List.forall_mem_cons.mp hdigits
      -- the loop notes the underscore and goes on with the digit behind it
      let r := s.advance.record .numericSeparator start
      have hr : r.rest = c :: (written ++ rest) := rest_advance hs
      obtain ⟨t, hread, ht⟩ := ih hdigits (rest_advance hr) (c :: read)
      refine ⟨t, ?_, (Separately.underscore start hs).trans (.cons hr (hne c hc) ht)⟩
      rw [digitsFrom_underscore hs hc, digitsFrom_digit hr hc, hread]
      simp

theorem exists_digits (h : FurtherDigits digits written) (hdigits : ∀ c ∈ digits, isDigitOf radix c = true)
    (hs : s.rest = written ++ rest) (hstop : rest.head?.any (fun c => isDigitOf radix c || c == '_') = false)
    (start : Position) :
    ∃ t, s.digits radix start = (digits, t) ∧ Separately start written s t := by
  obtain ⟨t, hread, ht⟩ := exists_digitsFrom h hdigits hs hstop start []
  refine ⟨t, ?_, ht⟩
  unfold Lexer.digits
  rw [hread]
  simp

/-! ## Behind a radix mark -/

/-- **An integer behind its radix mark**, read to the end of its suffix. -/
theorem exists_radixNumeral {mark : Radix} (h : Separated digits written) (hne : digits ≠ [])
    (hdigits : ∀ c ∈ digits, isDigitOf mark.base c = true) (hs : s.rest = written ++ 'n' :: rest)
    (start : Position) :
    ∃ t, s.radixNumeral mark start = (.bigint (digitsValue mark.base digits), t) ∧
      Quietly (written ++ ['n']) s t := by
  let r := mark.feature?.elim s (s.record · start)
  have hr : Quietly [] s r := by
    cases mark <;> exact .congr (.refl s) rfl rfl rfl
  have hrest : r.rest = written ++ 'n' :: rest := hr.rest_eq hs
  have hfirst : r.nextIs (isDigitOf mark.base) = true := by
    cases h with
    | nil => exact absurd rfl hne
    | cons _ => exact (nextIs_cons hrest _).trans (hdigits _ List.mem_cons_self)
  have hstop : ('n' :: rest).head?.any (fun c => isDigitOf mark.base c || c == '_') = false := by
    cases mark <;> rfl
  obtain ⟨t, hread, ht⟩ := exists_digits h.further hdigits hrest hstop start
  have hsuffix : t.rest = 'n' :: rest := ht.rest_eq hrest
  refine ⟨t.advance, ?_, (hr.trans ht.toQuietly).trans (.advance hsuffix)⟩
  unfold radixNumeral
  dsimp only
  rw [if_pos hfirst, hread]
  -- behind octal digits the reader looks for others, and there is the suffix
  have hdigit : t.nextIs Char.isDigit = false := nextIs_cons hsuffix _
  have hn : t.nextIs (· == 'n') = true := nextIs_cons hsuffix _
  simp only [hdigit, Bool.and_false, Bool.false_eq_true, if_false]
  rw [if_pos hn]

/-! ## Decimal literals -/

/-- What of a decimal literal comes behind the whole part and the point. -/
def decimalTail (s : Lexer) (whole : List Char) (hasPoint : Bool) (start : Position) : TokenKind × Lexer :=
  let (fraction, s) := if hasPoint && s.nextIs Char.isDigit then s.digits 10 start else ([], s)
  let (exponent, s) := s.exponentPart start
  if s.nextIs (· == 'n') then
    let t := s.advance
    (.bigint (digitsValue 10 whole),
      if hasPoint || exponent.isSome then t.error start .bigintNotInteger else t)
  else
    (.number (.ofScientific (digitsValue 10 (whole ++ fraction)) (exponent.getD 0 - fraction.length)), s)

theorem decimalNumeral_point (s : Lexer) (start : Position) :
    s.decimalNumeral '.' start = s.decimalTail ['0'] true start := rfl

theorem decimalNumeral_digit (hc : c.isDigit = true) (h : s.digits 10 start = (digits, t)) :
    s.decimalNumeral c start =
      if t.nextIs (· == '.') then t.advance.decimalTail (c :: digits) true start
      else t.decimalTail (c :: digits) false start := by
  have hpoint : c ≠ '.' := by
    rintro rfl
    cases hc
  unfold decimalNumeral
  simp only [beq_eq_false_iff_ne.mpr hpoint, bne, Bool.false_eq_true, if_false, h, Bool.not_false, Bool.true_and,
    Bool.false_or]
  split <;> simp_all [decimalTail]

/-- What stands behind the point of a decimal literal. -/
theorem exists_fraction (h : Separated digits written) (hdigits : ∀ c ∈ digits, c.isDigit = true)
    (hs : s.rest = written ++ rest) (hstop : rest.head?.any (fun c => c.isDigit || c == '_') = false)
    (start : Position) :
    ∃ t, (if s.nextIs Char.isDigit then s.digits 10 start else ([], s)) = (digits, t) ∧
      Separately start written s t := by
  cases h with
  | nil =>
      refine ⟨s, if_neg ?_, .refl start s⟩
      have hnone : rest.head?.any Char.isDigit = false := by
        cases hrest : rest.head? with
        | none => rfl
        | some c => simp_all
      simpa [nextIs, hs] using hnone
  | cons h =>
      have hfirst : s.nextIs Char.isDigit = true := (nextIs_cons hs _).trans (hdigits _ List.mem_cons_self)
      rw [if_pos hfirst]
      refine exists_digits (.digit h) ?_ hs ?_ start
      · simpa only [isDigitOf_ten] using hdigits
      · simpa only [isDigitOf_ten] using hstop

/-- The sign of an exponent, which the first digit tells from the digits. -/
theorem exists_sign {sign : List Char} (hsign : sign = [] ∨ sign = ['+'] ∨ sign = ['-']) (hc : c.isDigit = true)
    (hs : s.rest = sign ++ c :: rest) (start : Position) :
    ∃ t, (if s.nextIs (fun c => c == '+' || c == '-') then s.advance else s) = t ∧ Separately start sign s t ∧
      s.nextIs (· == '-') = decide (sign = ['-']) := by
  have hnot {d : Char} (hd : d.isDigit = false) : c ≠ d := by
    rintro rfl
    cases hc.symm.trans hd
  rcases hsign with rfl | rfl | rfl
  · refine ⟨s, if_neg ?_, .refl start s, ?_⟩ <;>
      simp [nextIs_cons hs, hnot (d := '+') rfl, hnot (d := '-') rfl]
  · exact ⟨s.advance, if_pos (nextIs_cons hs _), .advance start hs (by decide), nextIs_cons hs _⟩
  · exact ⟨s.advance, if_pos (nextIs_cons hs _), .advance start hs (by decide), nextIs_cons hs _⟩

/-- The exponent of a decimal literal at the end of a text. -/
theorem exists_exponentPart {e : ExponentPart} (he : e.WellFormed) (h : Separated e.digits written)
    (hs : s.rest = e.mark :: (e.sign ++ written)) (start : Position) :
    ∃ t, s.exponentPart start = (some e.value, t) ∧ Separately start (e.mark :: (e.sign ++ written)) s t := by
  obtain ⟨hmark, hsign, hne, hdigits⟩ := he
  generalize hspelled : e.digits = digits at h hne hdigits
  cases h with
  | nil => exact absurd rfl hne
  | @cons c digits written h =>
      have hc : c.isDigit = true := hdigits c List.mem_cons_self
      -- over the mark, over the sign, over the digits
      have hbehind : s.advance.rest = e.sign ++ c :: written := rest_advance hs
      obtain ⟨r, hsigned, hr, hnegative⟩ := exists_sign hsign hc hbehind start
      have hrest : r.rest = c :: written := hr.rest_eq hbehind
      have hall : ∀ d ∈ c :: digits, isDigitOf 10 d = true := by
        simpa only [isDigitOf_ten] using hdigits
      obtain ⟨t, hread, ht⟩ := exists_digits (.digit h) hall (hrest.trans (List.append_nil _).symm) rfl start
      have hmarked : s.nextIs (fun c => c == 'e' || c == 'E') = true := by
        rw [nextIs_cons hs]
        simpa using hmark
      have hmarkNe : e.mark ≠ '_' := by
        rcases hmark with hmark | hmark <;> rw [hmark] <;> decide
      refine ⟨t, ?_, .cons hs hmarkNe (hr.trans ht)⟩
      unfold exponentPart
      rw [if_pos hmarked]
      dsimp only
      rw [hsigned, if_pos ((nextIs_cons hrest _).trans hc), hread, hnegative]
      unfold ExponentPart.value
      rw [hspelled]
      simp only [decide_eq_true_eq]

section Decimal

variable {l w : DecimalLiteral}

/-- An exponent starts with neither a digit nor an underscore nor a point. -/
theorem head?_exponentChars (hl : l.WellFormed) (h : l.Separates w) {p : Char → Bool} (hlower : p 'e' = false)
    (hupper : p 'E' = false) : w.exponentChars.head?.any p = false := by
  unfold DecimalLiteral.exponentChars
  have hexponent := h.exponent
  generalize he : l.exponent = e, w.exponent = f at hexponent ⊢
  cases hexponent with
  | none => rfl
  | @some e f hef =>
      have hmark := hef.mark ▸ (hl.exponent e he).mark
      show p f.mark = false
      rcases hmark with hmark | hmark <;> rwa [hmark]

theorem exists_exponent (hl : l.WellFormed) (h : l.Separates w) (hs : s.rest = w.exponentChars) (start : Position) :
    ∃ t, s.exponentPart start = (l.exponent.map (·.value), t) ∧ Separately start w.exponentChars s t := by
  unfold DecimalLiteral.exponentChars at hs ⊢
  have hexponent := h.exponent
  generalize he : l.exponent = e, w.exponent = f at hexponent hs ⊢
  cases hexponent with
  | none =>
      refine ⟨s, if_neg ?_, .refl start s⟩
      rw [nextIs, hs]
      exact Bool.false_ne_true
  | @some e f hef =>
      have hchars : f.chars = e.mark :: (e.sign ++ f.digits) := by
        rw [ExponentPart.chars, hef.mark, hef.sign]
      rw [Option.elim_some, hchars] at hs ⊢
      exact exists_exponentPart (hl.exponent e he) hef.digits hs start

theorem exists_decimalTail (hl : l.WellFormed) (h : l.Separates w) (whole : List Char)
    (hs : s.rest = w.fraction.getD [] ++ w.exponentChars) (start : Position) :
    ∃ t, s.decimalTail whole l.fraction.isSome start =
        (.number (.ofScientific (digitsValue 10 (whole ++ l.fraction.getD []))
          ((l.exponent.map (·.value)).getD 0 - (l.fraction.getD []).length)), t) ∧
      Separately start (w.fraction.getD [] ++ w.exponentChars) s t := by
  obtain ⟨r, hfraction, hr⟩ : ∃ r, (if l.fraction.isSome && s.nextIs Char.isDigit then s.digits 10 start else ([], s)) =
      (l.fraction.getD [], r) ∧ Separately start (w.fraction.getD []) s r := by
    have hdigits : ∀ c ∈ l.fraction.getD [], c.isDigit = true :=
      fun c hc => hl.digits c (List.mem_append_right _ hc)
    have hparts := h.fraction
    generalize l.fraction = d, w.fraction = f at hparts hs hdigits ⊢
    cases hparts with
    | none => exact ⟨s, rfl, .refl start s⟩
    | some hsep => exact exists_fraction hsep hdigits hs (head?_exponentChars hl h rfl rfl) start
  have hrest : r.rest = w.exponentChars := hr.rest_eq hs
  obtain ⟨t, hexponent, ht⟩ := exists_exponent hl h hrest start
  have hend : t.rest = [] := ht.rest_eq (hrest.trans (List.append_nil _).symm)
  refine ⟨t, ?_, hr.trans ht⟩
  unfold decimalTail
  dsimp only
  rw [hfraction]
  dsimp only
  rw [hexponent]
  refine if_neg ?_
  rw [nextIs, hend]
  exact Bool.false_ne_true

theorem isSome_fraction (h : l.Separates w) : w.fraction.isSome = l.fraction.isSome := by
  have hfraction := h.fraction
  generalize l.fraction = d, w.fraction = f at hfraction ⊢
  cases hfraction <;> rfl

/-- A decimal literal that starts with its point, behind it. -/
theorem exists_decimalNumeral_point (hl : l.WellFormed) (h : l.Separates w) (hwhole : l.whole = [])
    (hfraction : l.fraction.isSome = true) (hs : s.rest = w.fraction.getD [] ++ w.exponentChars)
    (start : Position) :
    ∃ t, s.decimalNumeral '.' start = (.number l.value, t) ∧
      Separately start (w.fraction.getD [] ++ w.exponentChars) s t := by
  obtain ⟨t, hread, ht⟩ := exists_decimalTail hl h ['0'] hs start
  refine ⟨t, ?_, ht⟩
  rw [hfraction] at hread
  -- the zero that stands for the whole part adds nothing to the value
  rw [decimalNumeral_point, hread, DecimalLiteral.value, hwhole]
  rfl

/-- A decimal literal that starts with a digit, behind it. -/
theorem exists_decimalNumeral_digit (hl : l.WellFormed) (h : l.Separates w) (hwhole : l.whole = c :: digits)
    (hfurther : FurtherDigits digits written) (hs : s.rest = written ++ (w.fractionChars ++ w.exponentChars))
    (start : Position) :
    ∃ t, s.decimalNumeral c start = (.number l.value, t) ∧
      Separately start (written ++ (w.fractionChars ++ w.exponentChars)) s t := by
  have hdigits : ∀ d ∈ c :: digits, d.isDigit = true :=
    fun d hd => hl.digits d (List.mem_append_left _ (hwhole ▸ hd))
  obtain ⟨hc, hdigits⟩ := List.forall_mem_cons.mp hdigits
  have hstop : (w.fractionChars ++ w.exponentChars).head?.any (fun d => isDigitOf 10 d || d == '_') = false := by
    unfold DecimalLiteral.fractionChars
    cases w.fraction with
    | none => exact head?_exponentChars hl h rfl rfl
    | some fraction => rfl
  obtain ⟨r, hread, hr⟩ :=
    exists_digits hfurther (fun d hd => (isDigitOf_ten d).trans (hdigits d hd)) hs hstop start
  have hrest : r.rest = w.fractionChars ++ w.exponentChars := hr.rest_eq hs
  have htail (t : Lexer) (hs : t.rest = w.fraction.getD [] ++ w.exponentChars) :=
    exists_decimalTail hl h (c :: digits) hs start
  rw [decimalNumeral_digit hc hread, DecimalLiteral.value, hwhole]
  rw [← isSome_fraction h] at htail
  unfold DecimalLiteral.fractionChars at hrest ⊢
  cases hw : w.fraction with
  | none =>
      rw [hw] at hrest htail
      have hpoint : r.nextIs (· == '.') = false := by
        rw [nextIs, hrest]
        exact head?_exponentChars hl h rfl rfl
      obtain ⟨t, hread, ht⟩ := htail r hrest
      rw [if_neg (ne_true_of_eq_false hpoint)]
      exact ⟨t, hread, hr.trans ht⟩
  | some fraction =>
      rw [hw] at hrest htail
      have hpoint : r.nextIs (· == '.') = true := nextIs_cons hrest _
      obtain ⟨t, hread, ht⟩ := htail r.advance (rest_advance hrest)
      rw [if_pos hpoint]
      exact ⟨t, hread, hr.trans (.cons hrest (by decide) ht)⟩

end Decimal

/-- An integer without a radix mark, behind its first digit and to the end of its suffix. -/
theorem exists_decimalNumeral_bigint (hc : c.isDigit = true) (h : FurtherDigits digits written)
    (hdigits : ∀ d ∈ digits, d.isDigit = true) (hs : s.rest = written ++ 'n' :: rest) (start : Position) :
    ∃ t, s.decimalNumeral c start = (.bigint (digitsValue 10 (c :: digits)), t) ∧ Quietly (written ++ ['n']) s t := by
  obtain ⟨t, hread, ht⟩ := exists_digits h (fun d hd => (isDigitOf_ten d).trans (hdigits d hd)) hs rfl start
  have hsuffix : t.rest = 'n' :: rest := ht.rest_eq hs
  have hpoint : t.nextIs (· == '.') = false := nextIs_cons hsuffix _
  have hexponent : t.exponentPart start = (none, t) := if_neg (ne_true_of_eq_false (nextIs_cons hsuffix _))
  have hn : t.nextIs (· == 'n') = true := nextIs_cons hsuffix _
  refine ⟨t.advance, ?_, ht.toQuietly.trans (.advance hsuffix)⟩
  rw [decimalNumeral_digit hc hread, if_neg (ne_true_of_eq_false hpoint), decimalTail]
  simp only [Bool.false_and, Bool.false_eq_true, if_false, hexponent, hn, if_true, Bool.false_or, Option.isSome_none]

/-! ## Literals as whole texts -/

theorem numeral_mark {mark : Radix} (hs : s.rest = c :: rest) (hmark : Radix.ofMark? c = some mark)
    (start : Position) : s.numeral '0' start = s.advance.radixNumeral mark start := by
  unfold numeral
  rw [if_pos (by decide), peek?, hs]
  dsimp only [List.head?_cons, Option.bind_some]
  rw [hmark]

/-- Neither a radix mark nor a digit stands behind a leading zero. -/
theorem numeral_eq_decimalNumeral
    (h : c = '0' → s.rest.head?.any (fun d => (Radix.ofMark? d).isSome || d.isDigit) = false) (start : Position) :
    s.numeral c start = s.decimalNumeral c start := by
  unfold numeral
  by_cases hzero : c = '0'
  · have hrest := h hzero
    unfold peek? nextIs
    cases hnext : s.rest.head? with
    | none => simp
    | some d => simp_all
  · rw [if_neg (by simpa using hzero)]

theorem startsPlainly_of_isDigit (hc : c.isDigit = true) : startsPlainly c = true :=
  of_isDigit (p := fun c => startsPlainly c = true) (by decide) hc

/-- A digit starts a number, and so does a point before a digit. -/
theorem scan_numeral (hc : (c.isDigit || (c == '.' && s.advance.nextIs Char.isDigit)) = true) :
    s.scan c = (((s.advance.numeral c s.position).1, false), (s.advance.numeral c s.position).2) := by
  have hother {d : Char} (hd : d.isDigit = false) (hpoint : d ≠ '.') : (c == d) = false := by
    refine beq_eq_false_iff_ne.mpr ?_
    rintro rfl
    simp [hd, hpoint] at hc
  unfold scan
  dsimp only
  rw [if_neg (by simp [hother]), if_neg (by simp [hother]), if_neg (by simp [hother]), if_pos hc]

/-- A text that is a number. -/
theorem Sole.of_numeral {strict : Bool} {kind : TokenKind}
    (hc : (c.isDigit || (c == '.' && rest.head?.any Char.isDigit)) = true)
    (h : (behindFirst (c :: rest) strict).numeral c Position.start = (kind, t)) (hkind : kind ≠ .endOfText)
    (hread : Quietly rest (behindFirst (c :: rest) strict) t) : Sole (c :: rest) strict kind false t := by
  have hplain : startsPlainly c = true := by
    simp only [Bool.or_eq_true, Bool.and_eq_true, beq_iff_eq] at hc
    rcases hc with hdigit | ⟨rfl, -⟩
    · exact startsPlainly_of_isDigit hdigit
    · decide
  exact .of_scan hplain ((scan_numeral hc).trans (congrArg (fun answer => ((answer.1, false), answer.2)) h)) hkind hread

theorem of_mem_radixMarks {mark : List Char} (h : (radix, mark) ∈ radixMarks) :
    (radix = 10 ∧ mark = []) ∨ ∃ c r, mark = ['0', c] ∧ Radix.ofMark? c = some r ∧ radix = r.base := by
  simp only [radixMarks, List.mem_cons, Prod.mk.injEq, List.not_mem_nil, or_false] at h
  rcases h with ⟨rfl, rfl⟩ | ⟨rfl, rfl⟩ | ⟨rfl, rfl⟩ | ⟨rfl, rfl⟩ | ⟨rfl, rfl⟩ | ⟨rfl, rfl⟩ | ⟨rfl, rfl⟩
  · exact .inr ⟨'b', .binary, rfl, rfl, rfl⟩
  · exact .inr ⟨'B', .binary, rfl, rfl, rfl⟩
  · exact .inr ⟨'o', .octal, rfl, rfl, rfl⟩
  · exact .inr ⟨'O', .octal, rfl, rfl, rfl⟩
  · exact .inl ⟨rfl, rfl⟩
  · exact .inr ⟨'x', .hexadecimal, rfl, rfl, rfl⟩
  · exact .inr ⟨'X', .hexadecimal, rfl, rfl, rfl⟩

/-- **An integer literal as a whole text.** -/
theorem exists_sole_bigint {mark spelled : List Char} {digits : List Nat} (hmark : (radix, mark) ∈ radixMarks)
    (hspelled : List.Forall₂ HexDigit digits spelled) (hlt : ∀ d ∈ digits, d < radix) (hne : digits ≠ [])
    (hzero : radix = 10 → digits = [0] ∨ digits.head? ≠ some 0) (h : Separated spelled written) (strict : Bool) :
    ∃ t, Sole (mark ++ written ++ ['n']) strict (.bigint (Nat.ofDigits radix digits.reverse)) false t := by
  have hvalues : List.Forall₂ (fun d c => digitValue? radix c = some d) digits spelled :=
    ((List.forall₂_and_left _ _).mpr ⟨hlt, hspelled⟩).imp
      fun _ _ hdigit => digitValue?_of_lt (digitValue?_of_hexDigit hdigit.2) hdigit.1
  have hdigits := isDigitOf_of_forall₂ hvalues
  rw [← digitsValue_eq_ofDigits hvalues]
  rcases of_mem_radixMarks hmark with ⟨rfl, rfl⟩ | ⟨c, r, rfl, hc, rfl⟩
  · cases hspelled with
    | nil => exact absurd rfl hne
    | @cons d c digits spelled hd hspelled =>
        cases h with
        | @cons _ _ written hfurther =>
            obtain ⟨hc, hdigits⟩ := List.forall_mem_cons.mp hdigits
            rw [isDigitOf_ten] at hc
            let s := behindFirst (c :: (written ++ ['n'])) strict
            have hrest : s.rest = written ++ 'n' :: [] := rfl
            obtain ⟨t, hread, ht⟩ := exists_decimalNumeral_bigint (s := s) hc hfurther
              (by simpa only [isDigitOf_ten] using hdigits) hrest Position.start
            show ∃ t, Sole (c :: (written ++ ['n'])) strict _ false t
            refine ⟨t, .of_numeral (by rw [hc]; rfl) ?_ nofun ht⟩
            refine (numeral_eq_decimalNumeral ?_ Position.start).trans hread
            -- a leading zero stands alone
            rintro rfl
            cases Option.some.inj ((digitValue?_of_hexDigit hd).symm.trans (by rfl : _ = some 0))
            rcases hzero rfl with hzero | hzero
            · cases hzero
              cases hspelled
              cases hfurther
              rfl
            · exact absurd rfl hzero
  · have hspelledNe : spelled ≠ [] := by
      rintro rfl
      cases hspelled
      exact hne rfl
    let s := behindFirst ('0' :: c :: (written ++ ['n'])) strict
    have hrest : s.rest = c :: (written ++ ['n']) := rfl
    obtain ⟨t, hread, ht⟩ := exists_radixNumeral h hspelledNe hdigits (rest_advance hrest) Position.start
    show ∃ t, Sole ('0' :: c :: (written ++ ['n'])) strict _ false t
    refine ⟨t, .of_numeral rfl ?_ nofun (.cons hrest ht)⟩
    exact (numeral_mark hrest hc Position.start).trans hread

/-- A text that is a decimal literal and leaves a note for each underscore. -/
theorem exists_sole_of_decimalNumeral {text : List Char} {strict : Bool} {value : Double} (htext : text = c :: rest)
    (hc : (c.isDigit || (c == '.' && rest.head?.any Char.isDigit)) = true)
    (hzero : c = '0' → rest.head?.any (fun d => (Radix.ofMark? d).isSome || d.isDigit) = false)
    (h : ∀ s : Lexer, s.rest = rest →
      ∃ t, s.decimalNumeral c Position.start = (.number value, t) ∧ Separately Position.start rest s t) :
    ∃ t, Sole text strict (.number value) false t ∧
      t.features = Array.replicate (text.count '_') (.numericSeparator, Position.start) := by
  subst htext
  obtain ⟨t, hread, ht⟩ := h (behindFirst (c :: rest) strict) rfl
  have hne : c ≠ '_' := by
    rintro rfl
    cases hc
  refine ⟨t, .of_numeral hc ?_ (by simp) ht.toQuietly, ?_⟩
  · rw [numeral_eq_decimalNumeral hzero, hread]
  · rw [ht.features, List.count_cons_of_ne hne]
    exact Array.empty_append

section Decimal

variable {l w : DecimalLiteral}

/-- Only the digits behind the point tell a literal without a whole part from a point. -/
theorem exists_sole_decimal_point (hl : l.WellFormed) (h : l.Separates w) (hls : l.whole = []) (hws : w.whole = [])
    (strict : Bool) :
    ∃ t, Sole w.chars strict (.number l.value) false t ∧
      t.features = Array.replicate (w.chars.count '_') (.numericSeparator, Position.start) := by
  obtain ⟨fraction, hsome, hne⟩ : ∃ fraction, l.fraction = some fraction ∧ fraction ≠ [] := by
    rcases hl.start with hstart | ⟨hstart, -⟩ | ⟨-, hstart⟩
    · cases hls.symm.trans hstart
    · exact absurd hls hstart
    · exact hstart
  have hsep := h.fraction
  rw [hsome] at hsep
  generalize hwritten : w.fraction = f at hsep
  obtain @⟨_, written, hsep⟩ := hsep
  cases hsep with
  | nil => exact absurd rfl hne
  | @cons d digits written hfurther =>
      have hd : d.isDigit = true := hl.digits d (by simp [hsome])
      have hchars : w.chars = '.' :: (w.fraction.getD [] ++ w.exponentChars) := by
        simp [DecimalLiteral.chars, DecimalLiteral.fractionChars, hws, hwritten]
      refine exists_sole_of_decimalNumeral hchars ?_ nofun fun s hs =>
        exists_decimalNumeral_point hl h hls (by rw [hsome]; rfl) hs Position.start
      simpa [hwritten] using hd

theorem exists_sole_decimal_digit (hl : l.WellFormed) (h : l.Separates w) (hls : l.whole = c :: digits)
    (hws : w.whole = c :: written) (hfurther : FurtherDigits digits written) (strict : Bool) :
    ∃ t, Sole w.chars strict (.number l.value) false t ∧
      t.features = Array.replicate (w.chars.count '_') (.numericSeparator, Position.start) := by
  have hc : c.isDigit = true := hl.digits c (by simp [hls])
  have hchars : w.chars = c :: (written ++ (w.fractionChars ++ w.exponentChars)) := by
    simp [DecimalLiteral.chars, hws]
  refine exists_sole_of_decimalNumeral hchars (by rw [hc]; rfl) ?_ fun s hs =>
    exists_decimalNumeral_digit hl h hls hfurther hs Position.start
  -- a leading zero stands alone, and a point or an exponent comes next
  rintro rfl
  have hnil : digits = [] := by
    rcases hl.start with hstart | ⟨-, hstart⟩ | ⟨hstart, -⟩
    · exact (List.cons.inj (hls.symm.trans hstart)).2
    · exact absurd (congrArg List.head? hls) hstart
    · cases hls.symm.trans hstart
  subst hnil
  cases hfurther
  unfold DecimalLiteral.fractionChars
  cases w.fraction with
  | none => exact head?_exponentChars hl h rfl rfl
  | some fraction => rfl

/-- **A decimal literal as a whole text.** -/
theorem exists_sole_decimal (hl : l.WellFormed) (h : l.Separates w) (strict : Bool) :
    ∃ t, Sole w.chars strict (.number l.value) false t ∧
      t.features = Array.replicate (w.chars.count '_') (.numericSeparator, Position.start) := by
  have hwhole := h.whole
  generalize hls : l.whole = ls, hws : w.whole = ws at hwhole
  cases hwhole with
  | nil => exact exists_sole_decimal_point hl h hls hws strict
  | cons hfurther => exact exists_sole_decimal_digit hl h hls hws hfurther strict

end Decimal

/-- **Integers have the value of their digits, and separators change nothing but the features.** An integer
literal in any radix is one token with the positional value of its digits. A decimal literal with underscores
between its digits is the same token as without them, and each underscore is noted as a feature. -/
theorem tokens_numeral (strict : Bool) :
    (∀ (radix : Nat) (mark : List Char) (digits : List Nat) (spelled written : List Char),
      (radix, mark) ∈ radixMarks → List.Forall₂ HexDigit digits spelled → (∀ d ∈ digits, d < radix) → digits ≠ [] →
      (radix = 10 → digits = [0] ∨ digits.head? ≠ some 0) → Separated spelled written →
      ∃ t, Sole (mark ++ written ++ ['n']) strict (.bigint (Nat.ofDigits radix digits.reverse)) false t) ∧
    (∀ l written : DecimalLiteral, l.WellFormed → l.Separates written →
      ∃ t u, Sole l.chars strict (.number l.value) false t ∧ Sole written.chars strict (.number l.value) false u ∧
        t.features = #[] ∧
        u.features = Array.replicate (written.chars.count '_') (.numericSeparator, Position.start)) := by
  constructor
  · intro radix mark digits spelled written hmark hspelled hlt hne hzero h
    exact exists_sole_bigint hmark hspelled hlt hne hzero h strict
  · intro l written hl h
    obtain ⟨t, ht, hfeatures⟩ := exists_sole_decimal hl (.refl l) strict
    obtain ⟨u, hu, hadded⟩ := exists_sole_decimal hl h strict
    rw [List.count_eq_zero.mpr hl.underscore_notMem] at hfeatures
    exact ⟨t, u, ht, hu, hfeatures, hadded⟩

/-- An integer and a decimal literal, both with separators. -/
theorem tokens_numeral_separated :
    (∃ t, Sole "0xF_fn".toList true (.bigint 255) false t) ∧
    (∃ t u, Sole "10.55e+10".toList true (.number (.ofScientific 1055 8)) false t ∧
      Sole "1_0.5_5e+1_0".toList true (.number (.ofScientific 1055 8)) false u ∧
      t.features = #[] ∧ u.features = Array.replicate 3 (.numericSeparator, Position.start)) := by
  have hinteger : Separated ['F', 'f'] ['F', '_', 'f'] := .cons (.separated .nil)
  let plain : DecimalLiteral := ⟨['1', '0'], some ['5', '5'], some ⟨'e', ['+'], ['1', '0']⟩⟩
  let written : DecimalLiteral := ⟨['1', '_', '0'], some ['5', '_', '5'], some ⟨'e', ['+'], ['1', '_', '0']⟩⟩
  have hplain : plain.WellFormed := by
    refine ⟨List.all_eq_true.mp (by decide), .inr (.inl (by decide)), ?_⟩
    rintro e ⟨⟩
    exact ⟨by decide, by decide, by decide, List.all_eq_true.mp (by decide)⟩
  have hwritten : plain.Separates written :=
    ⟨.cons (.separated .nil), .some (.cons (.separated .nil)), .some ⟨rfl, rfl, .cons (.separated .nil)⟩⟩
  exact ⟨(tokens_numeral true).1 16 ['0', 'x'] [15, 15] ['F', 'f'] ['F', '_', 'f'] (by decide)
      (by decide) (by decide) (by decide) (by decide) hinteger,
    (tokens_numeral true).2 plain written hplain hwritten⟩

end Lexer

end EcmaScript
