import EcmaScript.Proofs.Spelling.Escape
import EcmaScript.Proofs.Spelling.RawText
import EcmaScript.Proofs.Spelling.Round

/-!
# Strings and templates decode alike

Strings and templates have a decoder each. The one drops what it cannot decode and reports it at once; the other
writes everything down and leaves its problems to whoever knows whether the template is tagged. Over one body, they
mean the same by it: as long as both read on in step, what the one has decoded is what the other has decoded, and
an error of the one is a fault of the other.

They stay in step over every escape, malformed ones included (`Lexer.ReadsAlike`), since no quote and no backtick
can be part of the body of one. Digits are the exception: a template has no octal escapes.

## Contents

* `decimalEscape`: the escapes that a template does not have.
* `Lexer.Abreast`, `Lexer.ReadsAlike`: two lexers in front of one body, and the readers of escapes.
* `Lexer.Agree`: what the two have decoded so far.
* `Lexer.agree_bodies`: what they have decoded in the end.
* `Lexer.cooked_eq_some_iff`: the two tokens.
-/

namespace EcmaScript

/-- Whether a digit stands behind a backslash, other than a zero that no digit follows. -/
def decimalEscape : List Char → Bool
  | [] => false
  | '\\' :: c :: rest => (c.isDigit && !(c == '0' && !rest.head?.any Char.isDigit)) || decimalEscape rest
  | _ :: rest => decimalEscape rest

theorem decimalEscape_cons {c : Char} (hc : c ≠ '\\') (xs : List Char) : decimalEscape (c :: xs) = decimalEscape xs := by
  rw [decimalEscape]
  rintro _ _ rfl
  exact absurd rfl hc

theorem decimalEscape_escape {c : Char} {xs : List Char} (h : decimalEscape ('\\' :: c :: xs) = false) :
    (c.isDigit = true → c = '0' ∧ xs.head?.any Char.isDigit = false) ∧ decimalEscape xs = false := by
  obtain ⟨hc, hxs⟩ := Bool.or_eq_false_iff.mp h
  refine ⟨fun hdigit => ?_, hxs⟩
  simpa [hdigit] using hc

namespace Lexer

variable {quote : Char} {tail tail' body : List Char} {r s t u : Lexer} {c : Char} {d e : TemplateDraft}

theorem ne_of_isEscapeBody {x : Char} (h : isEscapeBody c = true) (hx : isEscapeBody x = false) : c ≠ x := by
  rintro rfl
  cases h.symm.trans hx

/-- What stands in an escape behind its letter does not matter. -/
theorem decimalEscape_append {read : List Char} (h : ∀ c ∈ read, isEscapeBody c = true) (xs : List Char) :
    decimalEscape (read ++ xs) = decimalEscape xs := by
  induction read with
  | nil => rfl
  | cons c read ih =>
      obtain ⟨hc, hread⟩ := List.forall_mem_cons.mp h
      rw [List.cons_append, decimalEscape_cons (ne_of_isEscapeBody hc (by decide)), ih hread]

/-! ## In step -/

/-- One lexer stands in a string and another one in a template, and the same is left of both up to the end. -/
structure Abreast (quote : Char) (tail tail' body : List Char) (s t : Lexer) : Prop where
  left : s.rest = body ++ quote :: tail
  right : t.rest = body ++ '\x60' :: tail'

theorem Abreast.advance (h : Abreast quote tail tail' (c :: body) s t) :
    Abreast quote tail tail' body s.advance t.advance :=
  ⟨rest_advance h.left, rest_advance h.right⟩

/-- In front of `body` the two read the body of an escape, and they are abreast again. -/
def StayAbreast (quote : Char) (tail tail' body : List Char) (s t : Lexer) : Prop :=
  ∃ read left, body = read ++ left ∧ (∀ c ∈ read, isEscapeBody c = true) ∧ Abreast quote tail tail' left s t

namespace StayAbreast

theorem refl (h : Abreast quote tail tail' body s t) : StayAbreast quote tail tail' body s t :=
  ⟨[], body, rfl, nofun, h⟩

/-- What was noted does not matter. -/
theorem congr (h : StayAbreast quote tail tail' body s t) (hu : u.rest = s.rest) :
    StayAbreast quote tail tail' body u t := by
  obtain ⟨read, left, hbody, hread, habreast⟩ := h
  exact ⟨read, left, hbody, hread, hu.trans habreast.left, habreast.right⟩

end StayAbreast

/-- From the states `s` and `t` two readers came to the same answer over the same characters, and nothing was reported. -/
structure ReadsAlike {α : Type} (quote : Char) (tail tail' body : List Char) (s : Lexer) (x y : α × Lexer) : Prop where
  answer : x.1 = y.1
  quiet : x.2.diagnostics = s.diagnostics
  passed : StayAbreast quote tail tail' body x.2 y.2

namespace ReadsAlike

variable {α : Type} {x y : α × Lexer}

theorem stop (h : Abreast quote tail tail' body s t) (a : α) : ReadsAlike quote tail tail' body s (a, s) (a, t) :=
  ⟨rfl, rfl, .refl h⟩

/-- One more character in front. -/
theorem cons (hc : isEscapeBody c = true) (h : ReadsAlike quote tail tail' body s.advance x y) :
    ReadsAlike quote tail tail' (c :: body) s x y := by
  obtain ⟨hanswer, hquiet, read, left, rfl, hread, hleft⟩ := h
  exact ⟨hanswer, hquiet.trans s.diagnostics_advance, c :: read, left, rfl, List.forall_mem_cons.mpr ⟨hc, hread⟩,
    hleft⟩

end ReadsAlike

/-- A quote is no part of an escape, and neither is a backtick. -/
theorem IsQuote.isEscapeBody_eq_false (h : IsQuote quote) : isEscapeBody quote = false := by
  obtain rfl | rfl := h <;> decide

theorem digitValue?_of_isEscapeBody (h : isEscapeBody c = false) : digitValue? 16 c = none := by
  cases hd : digitValue? 16 c with
  | none => rfl
  | some digit => cases h.symm.trans (isEscapeBody_of_digitValue? hd)

theorem readsAlike_hexDigits (hq : IsQuote quote) (n : Nat) (h : Abreast quote tail tail' body s t) (code : Nat) :
    ReadsAlike quote tail tail' body s (hexDigits n s code) (hexDigits n t code) := by
  induction n generalizing body s t code with
  | zero => exact .stop h _
  | succ n ih =>
      unfold hexDigits peek?
      rw [h.left, h.right]
      cases body with
      | nil =>
          have hleft := digitValue?_of_isEscapeBody hq.isEscapeBody_eq_false
          have hright : digitValue? 16 '\x60' = none := by decide
          simp only [List.nil_append, List.head?_cons, Option.bind_some, hleft, hright]
          exact .stop h _
      | cons c body =>
          simp only [List.cons_append, List.head?_cons, Option.bind_some]
          cases hd : digitValue? 16 c with
          | none => exact .stop h _
          | some digit => exact (ih h.advance _).cons (isEscapeBody_of_digitValue? hd)

theorem readsAlike_bracedDigits (hq : IsQuote quote) (h : Abreast quote tail tail' body s t) (code : BoundedCode) :
    ReadsAlike quote tail tail' body s (s.bracedDigits code) (t.bracedDigits code) := by
  induction body generalizing s t code with
  | nil =>
      have hbody := hq.isEscapeBody_eq_false
      have hleft := digitValue?_of_isEscapeBody hbody
      have hright : digitValue? 16 '\x60' = none := by decide
      have hclose : quote ≠ '\x7d' := by
        rintro rfl
        cases hbody
      rw [bracedDigits_cons h.left, bracedDigits_cons h.right, hleft, hright, if_neg (by simpa using hclose),
        if_neg (by decide)]
      exact .stop h _
  | cons c body ih =>
      rw [bracedDigits_cons h.left, bracedDigits_cons h.right]
      split
      next hclose => exact (ReadsAlike.stop h.advance _).cons (by rw [eq_of_beq hclose]; decide)
      next =>
        cases hd : digitValue? 16 c with
        | none => exact .stop h _
        | some digit => exact (ih h.advance _).cons (isEscapeBody_of_digitValue? hd)

/-- What an escape can go on with stands in the body if it stands next. -/
theorem head?_of_append {x y : Char} (hx : isEscapeBody x = true) (hy : isEscapeBody y = false)
    (h : (body ++ y :: tail).head? = some x) : body.head? = some x := by
  cases body with
  | nil => exact absurd (Option.some.inj h).symm (ne_of_isEscapeBody hx hy)
  | cons => exact h

theorem readsAlike_unicodeEscape (hq : IsQuote quote) (h : Abreast quote tail tail' body s t) :
    ReadsAlike quote tail tail' body s s.unicodeEscape t.unicodeEscape := by
  have hquote := hq.isEscapeBody_eq_false
  have htick : isEscapeBody '\x60' = false := by decide
  by_cases hbrace : body.head? = some '\x7b'
  · obtain ⟨body, rfl⟩ := List.head?_eq_some_iff.mp hbrace
    by_cases hempty : body.head? = some '\x7d'
    · obtain ⟨body, rfl⟩ := List.head?_eq_some_iff.mp hempty
      rw [unicodeEscape_empty h.left, unicodeEscape_empty h.right]
      exact ((ReadsAlike.stop h.advance.advance _).cons (by decide)).cons (by decide)
    · rw [unicodeEscape_braced h.left (mt (head?_of_append (by decide) hquote) hempty),
        unicodeEscape_braced h.right (mt (head?_of_append (by decide) htick) hempty)]
      refine .cons (by decide) ?_
      obtain ⟨hanswer, hquiet, hpassed⟩ := readsAlike_bracedDigits hq h.advance {}
      generalize s.advance.bracedDigits {} = x at hanswer hquiet hpassed ⊢
      generalize t.advance.bracedDigits {} = y at hanswer hpassed ⊢
      obtain ⟨code, u⟩ := x
      obtain ⟨_, v⟩ := y
      cases hanswer
      cases code with
      | none => exact ⟨rfl, hquiet, hpassed⟩
      | some code =>
          dsimp only
          cases code.char? with
          | none => exact ⟨rfl, hquiet, hpassed⟩
          | some c => exact ⟨rfl, hquiet, hpassed⟩
  · rw [unicodeEscape_digits (mt (h.left ▸ head?_of_append (by decide) hquote) hbrace),
      unicodeEscape_digits (mt (h.right ▸ head?_of_append (by decide) htick) hbrace)]
    obtain ⟨hanswer, hquiet, hpassed⟩ := readsAlike_hexDigits hq 4 h 0
    generalize hexDigits 4 s 0 = x at hanswer hquiet hpassed ⊢
    generalize hexDigits 4 t 0 = y at hanswer hpassed ⊢
    obtain ⟨code, u⟩ := x
    obtain ⟨_, v⟩ := y
    cases hanswer
    cases code with
    | none => exact ⟨rfl, hquiet, hpassed⟩
    | some code => exact ⟨rfl, hquiet, hpassed⟩

/-! ## What was decoded -/

/-- So far the string holds the characters `read`, and the template has the same, or both have found an error since `r`. -/
structure Agree (r : Lexer) (read : List Char) (s : Lexer) (d : TemplateDraft) : Prop where
  valid : d.valid = true ↔ r.ErrorFree s
  cooked : d.valid = true → d.cooked = read

namespace Agree

variable {read : List Char}

/-- Both go on with the same characters. -/
theorem push (decoded : List Char) (h : Agree r read s d) (hu : r.ErrorFree u ↔ r.ErrorFree s) (hvalid : e.valid = d.valid)
    (hcooked : e.cooked = decoded ++ d.cooked) : Agree r (decoded ++ read) u e := by
  refine ⟨by rw [hvalid, hu, h.valid], fun hv => ?_⟩
  rw [hcooked, h.cooked (hvalid ▸ hv)]

/-- Both find an error. -/
theorem fault (hu : ¬r.ErrorFree u) (hvalid : e.valid = false) : Agree r read u e :=
  ⟨by simp [hvalid, hu], fun hv => nomatch hvalid.symm.trans hv⟩

end Agree

/-- Behind the next escape both lexers are in step again, and what they have decoded is the same. -/
structure DecodesAlike (quote : Char) (tail tail' body : List Char) (r : Lexer) (read : List Char)
    (x : List Char × Lexer) (y : TemplateDraft × Lexer) : Prop where
  agree : Agree r (x.1 ++ read) x.2 y.1
  passed : StayAbreast quote tail tail' body x.2 y.2

section

variable {read : List Char} (start place : Position)

theorem digitValue?_eight_of_isDigit (h : c.isDigit = false) : digitValue? 8 c = none := by
  unfold digitValue?
  simp only [h, Bool.false_eq_true, if_false]
  refine if_neg ?_
  split
  · omega
  · split <;> omega

/-- A control character is not written as a mark. -/
theorem mark_of_controlEscape? {control : Char} (h : controlEscape? c = some control) :
    (c == '\'' || c == '"' || c == '\x60' || c == '\\' || c == '/') = false ∧
      (c == '\\' || c == '\x60' || c == '$') = false := by
  unfold controlEscape? at h
  split at h <;> first | exact ⟨rfl, rfl⟩ | cases h

theorem stringEscape_byte (s : Lexer) (start : Position) :
    s.stringEscape start 'x' =
      match hexDigits 2 s.advance 0 with
      | (some code, u) => ([(charOfCode? code).getD '\uFFFD'], u)
      | (none, u) => ([], u.error u.position .hexDigitExpected) := rfl

theorem templateEscape_byte (s : Lexer) (place : Position) (d : TemplateDraft) :
    s.templateEscape place 'x' d =
      match writtenHexDigits 2 s.advance 0 (d.write ['x']) with
      | (some code, e, u) => (e.cook ((charOfCode? code).getD '\uFFFD'), u)
      | (none, e, u) => (e.fault place .hexDigitExpected, u) := rfl

theorem stringEscape_unicode (s : Lexer) (start : Position) :
    s.stringEscape start 'u' =
      match s.advance.unicodeEscapeOrReport .hexDigitExpected with
      | (some c, u) => ([c], u)
      | (none, u) => ([], u) := rfl

theorem templateEscape_unicode (s : Lexer) (place : Position) (d : TemplateDraft) :
    s.templateEscape place 'u' d =
      match s.advance.writtenUnicodeEscape (d.write ['u']) with
      | (.ok c, e, u) => (e.cook c, u)
      | (.error fault, e, u) => (e.fault place (fault.problem .hexDigitExpected), u) := rfl

/-- Any character but a digit and the letters of codes stands for a control character or for itself. -/
theorem stringEscape_of_letter (hx : c ≠ 'x') (hu : c ≠ 'u') (hd : c.isDigit = false) :
    s.stringEscape start c = ([(controlEscape? c).getD c], s.advance) ∨
      s.stringEscape start c = ([(controlEscape? c).getD c], s.advance.warning start (.unnecessaryEscape c)) := by
  unfold stringEscape
  dsimp only
  cases hcontrol : controlEscape? c with
  | some control =>
      rw [if_neg (by rw [(mark_of_controlEscape? hcontrol).1]; decide)]
      exact .inl rfl
  | none =>
      split
      · exact .inl rfl
      · rw [if_neg (by simpa using hx), if_neg (by simpa using hu), digitValue?_eight_of_isDigit hd]
        exact .inr rfl

theorem templateEscape_of_letter (hx : c ≠ 'x') (hu : c ≠ 'u') (hd : c.isDigit = false) :
    (t.templateEscape place c d).2 = t.advance ∧ (t.templateEscape place c d).1.valid = d.valid ∧
      (t.templateEscape place c d).1.cooked = [(controlEscape? c).getD c] ++ d.cooked := by
  have hzero : c ≠ '0' := by
    rintro rfl
    cases hd
  unfold templateEscape
  dsimp only
  cases hcontrol : controlEscape? c with
  | some control =>
      rw [if_neg (by rw [(mark_of_controlEscape? hcontrol).2]; decide)]
      exact ⟨rfl, rfl, rfl⟩
  | none =>
      by_cases hmark : (c == '\\' || c == '\x60' || c == '$') = true
      · rw [if_pos hmark]
        exact ⟨rfl, rfl, rfl⟩
      · rw [if_neg hmark]
        dsimp only
        rw [if_neg (by simp [hzero]), if_neg (by simp [hd]), if_neg (by simpa using hx), if_neg (by simpa using hu)]
        split
        · exact ⟨rfl, rfl, rfl⟩
        · exact ⟨rfl, rfl, rfl⟩

section

variable (hq : IsQuote quote) (hg : Grows r s) (ha : Agree r read s d)
include hq hg ha

/-- A code of two digits. -/
theorem decodesAlike_byte (h : Abreast quote tail tail' ('x' :: body) s t) :
    DecodesAlike quote tail tail' body r read (s.stringEscape start 'x') (t.templateEscape place 'x' d) := by
  obtain ⟨hanswer, hquiet, hpassed⟩ := readsAlike_hexDigits hq 2 h.advance 0
  obtain ⟨written, -, -, hwritten⟩ := writes_hexDigits 2 t.advance 0 (d.write ['x'])
  have hg' := hg.advance.hexDigits 2 0
  rw [stringEscape_byte, templateEscape_byte, hwritten]
  generalize hexDigits 2 s.advance 0 = x at hanswer hquiet hpassed hg' ⊢
  generalize hexDigits 2 t.advance 0 = y at hanswer hpassed ⊢
  obtain ⟨code, u⟩ := x
  obtain ⟨_, v⟩ := y
  cases hanswer
  cases code with
  | none => exact ⟨.fault (hg'.not_errorFree_error _ _) rfl, hpassed.congr rfl⟩
  | some code => exact ⟨ha.push _ (errorFree_congr (hquiet.trans s.diagnostics_advance)) rfl rfl, hpassed⟩

/-- A Unicode escape. -/
theorem decodesAlike_unicode (h : Abreast quote tail tail' ('u' :: body) s t) :
    DecodesAlike quote tail tail' body r read (s.stringEscape start 'u') (t.templateEscape place 'u' d) := by
  obtain ⟨hanswer, hquiet, hpassed⟩ := readsAlike_unicodeEscape hq h.advance
  obtain ⟨written, -, -, hwritten⟩ := t.advance.writes_unicodeEscape (d.write ['u'])
  have hg' := hg.advance.unicodeEscape
  rw [stringEscape_unicode, templateEscape_unicode, hwritten]
  unfold unicodeEscapeOrReport
  generalize s.advance.unicodeEscape = x at hanswer hquiet hpassed hg' ⊢
  generalize t.advance.unicodeEscape = y at hanswer hpassed ⊢
  obtain ⟨answer, u⟩ := x
  obtain ⟨_, v⟩ := y
  cases hanswer
  cases answer with
  | error fault => exact ⟨.fault (hg'.not_errorFree_error _ _) rfl, hpassed.congr rfl⟩
  | ok c => exact ⟨ha.push _ (errorFree_congr (hquiet.trans s.diagnostics_advance)) rfl rfl, hpassed⟩

omit hg in
/-- A zero that no digit follows. -/
theorem decodesAlike_zero (h : Abreast quote tail tail' ('0' :: body) s t)
    (hbody : body.head?.any Char.isDigit = false) :
    DecodesAlike quote tail tail' body r read (s.stringEscape start '0') (t.templateEscape place '0' d) := by
  have hlast {x : Char} {tail : List Char} (hx : x.isDigit = false) :
      (body ++ x :: tail).head?.any Char.isDigit = false := by
    cases body with
    | nil => exact hx
    | cons => exact hbody
  have hleft : s.advance.nextIs Char.isDigit = false := by
    unfold nextIs
    rw [h.advance.left]
    exact hlast (by obtain rfl | rfl := hq <;> decide)
  have hright : t.advance.nextIs Char.isDigit = false := by
    unfold nextIs
    rw [h.advance.right]
    exact hlast (by decide)
  have hs : s.stringEscape start '0' = (['\x00'], s.advance) := by
    simp [stringEscape, controlEscape?, hleft, show digitValue? 8 '0' = some 0 from rfl]
  have ht : t.templateEscape place '0' d = ((d.write ['0']).cook '\x00', t.advance) := by
    simp [templateEscape, controlEscape?, hright]
  rw [hs, ht]
  exact ⟨ha.push _ (errorFree_congr s.diagnostics_advance) rfl rfl, .refl h.advance⟩

/-- **The step over an escape.** -/
theorem decodesAlike_escape (h : Abreast quote tail tail' (c :: body) s t)
    (hd : c.isDigit = true → c = '0' ∧ body.head?.any Char.isDigit = false) :
    DecodesAlike quote tail tail' body r read (s.stringEscape start c) (t.templateEscape place c d) := by
  by_cases hx : c = 'x'
  · subst hx
    exact decodesAlike_byte start place hq hg ha h
  by_cases hu : c = 'u'
  · subst hu
    exact decodesAlike_unicode start place hq hg ha h
  have hadvance : r.ErrorFree s.advance ↔ r.ErrorFree s := errorFree_congr s.diagnostics_advance
  cases hdigit : c.isDigit with
  | true =>
      obtain ⟨rfl, hbody⟩ := hd hdigit
      exact decodesAlike_zero start place hq ha h hbody
  | false =>
      obtain ⟨hlexer, hvalid, hcooked⟩ := templateEscape_of_letter place hx hu hdigit (t := t) (d := d)
      obtain hs | hs := stringEscape_of_letter start hx hu hdigit (s := s)
      · rw [hs]
        exact ⟨ha.push _ hadvance hvalid hcooked, .refl (hlexer ▸ h.advance)⟩
      · rw [hs]
        exact ⟨ha.push _ ((hg.advance.errorFree_warning _ _).trans hadvance) hvalid hcooked,
          StayAbreast.congr (s := s.advance) (.refl (hlexer ▸ h.advance)) rfl⟩

end

end

/-! ## The bodies -/

/-- What is left behind a line break, if no delimiter is a line feed. -/
theorem rest_skipLineBreak {x : Char} (hs : s.rest = c :: (body ++ x :: tail)) (hx : x ≠ '\n') :
    s.skipLineBreak.rest = (if c = '\r' ∧ body.head? = some '\n' then body.tail else body) ++ x :: tail := by
  obtain ⟨hreturn, hfeed⟩ | ⟨hfeed, hrest⟩ := exists_skipLineBreak hs
  · cases body with
    | nil => cases hfeed; exact absurd rfl hx
    | cons e body =>
        obtain ⟨rfl, hrest⟩ := List.cons.inj hfeed
        rw [if_pos ⟨hreturn, rfl⟩]
        exact hrest.symm
  · rw [if_neg, hrest]
    rintro ⟨hreturn, hhead⟩
    obtain ⟨body, rfl⟩ := List.head?_eq_some_iff.mp hhead
    exact hfeed hreturn rfl

/-- A line break is the same for both. -/
theorem Abreast.skipLineBreak (h : Abreast quote tail tail' (c :: body) s t) (hq : IsQuote quote) :
    Abreast quote tail tail' (if c = '\r' ∧ body.head? = some '\n' then body.tail else body) s.skipLineBreak
      t.skipLineBreak :=
  ⟨rest_skipLineBreak h.left (by obtain rfl | rfl := hq <;> decide), rest_skipLineBreak h.right (by decide)⟩

/-- A string that has an end is not empty. -/
theorem length_rest_stringBody_lt {read : List Char} {continued : Bool} {start : Position} (hg : Grows r s)
    (hf : ∀ x ∈ r.reportedSince (stringBody quote start s read continued).2.2, x.problem ≠ .unterminatedString) :
    (stringBody quote start s read continued).2.2.rest.length < s.rest.length := by
  fun_induction stringBody quote start s read continued with
  | case1 => exact absurd rfl (hf _ (hg.mem_reportedSince_error _ _))
  | case2 => exact absurd rfl (hf _ (hg.mem_reportedSince_error _ _))
  | case3 s read continued c rest hs => rw [rest_advance hs, hs]; exact Nat.lt_succ_self _
  | case4 => exact absurd rfl (hf _ (hg.advance.mem_reportedSince_error _ _))
  | case5 s read continued c rest hs hline hquote hescape e rest' hnext hbreak ih =>
      have hle := s.advance.length_rest_skipLineBreak_le
      have hlt := ih hg.advance.skipLineBreak hf
      have ha := s.length_rest_advance_le
      omega
  | case6 s read continued c rest hs hline hquote hescape e rest' hnext hbreak ih =>
      have hle := s.advance.length_rest_stringEscape_le start e
      have hlt := ih (hg.advance.stringEscape start e) hf
      have ha := s.length_rest_advance_le
      omega
  | case7 s read continued c rest hs hline hquote hescape hsep ih =>
      exact Nat.lt_of_lt_of_le (ih (hg.advance.record _ _) hf) s.length_rest_advance_le
  | case8 s read continued c rest hs hline hquote hescape hsep ih =>
      exact Nat.lt_of_lt_of_le (ih hg.advance hf) s.length_rest_advance_le

theorem append_cons_ne {α : Type} (xs : List α) (x : α) (ys : List α) : xs ++ x :: ys ≠ ys := by
  intro h
  have hlength := congrArg List.length h
  rw [List.length_append, List.length_cons] at hlength
  omega

section

variable {read : List Char} {continued : Bool} {start place : Position} (hq : IsQuote quote)
include hq

/-- No literal ends inside of the body, if both end behind it. -/
theorem Abreast.inside (h : Abreast quote tail tail' (c :: body) s t) (hg : Grows r s)
    (hleft : (stringBody quote start s read continued).2.2.rest = tail)
    (hf : ∀ x ∈ r.reportedSince (stringBody quote start s read continued).2.2, x.problem ≠ .unterminatedString)
    (hright : (templateBody place t d).2.2.rest = tail') :
    ¬(c = '\n' ∨ c = '\r') ∧ c ≠ quote ∧ c ≠ '\x60' ∧ (c = '$' → body.head? ≠ some '\x7b') := by
  refine ⟨fun hline => ?_, ?_, ?_, ?_⟩
  · rw [stringBody_break start read continued h.left hline] at hf
    exact absurd rfl (hf _ (hg.mem_reportedSince_error _ _))
  · rintro rfl
    rw [stringBody_quote start read continued hq h.left] at hleft
    exact append_cons_ne _ _ _ (h.advance.left.symm.trans hleft)
  · rintro rfl
    rw [templateBody_tick place d h.right] at hright
    exact append_cons_ne _ _ _ (h.advance.right.symm.trans hright)
  · rintro rfl hbrace
    obtain ⟨body, rfl⟩ := List.head?_eq_some_iff.mp hbrace
    rw [templateBody_open place d h.right] at hright
    exact append_cons_ne _ _ _ (h.advance.advance.right.symm.trans hright)

/-- The body does not end in a backslash: the quote would belong to an escape, and the string would end behind it. -/
theorem Abreast.ne_nil_of_escape (h : Abreast quote tail tail' ('\\' :: body) s t) (hg : Grows r s)
    (hleft : (stringBody quote start s read continued).2.2.rest = tail)
    (hf : ∀ x ∈ r.reportedSince (stringBody quote start s read continued).2.2, x.problem ≠ .unterminatedString) :
    body ≠ [] := by
  rintro rfl
  have hmark : s.advance.stringEscape start quote = ([quote], s.advance.advance) := by
    obtain rfl | rfl := hq <;> rfl
  have hbreak : isLineTerminator quote = false := by obtain rfl | rfl := hq <;> decide
  rw [stringBody_escape start read continued hq h.left hbreak, hmark] at hleft hf
  have hlt := length_rest_stringBody_lt hg.advance.advance hf
  rw [hleft, rest_advance h.advance.left] at hlt
  exact Nat.lt_irrefl _ hlt

/-- **The run.** If both bodies end where the common text ends, what was decoded is the same. The induction is on the
length of the body, since a round reads a whole escape. -/
theorem agree_bodies (h : Abreast quote tail tail' body s t) (hg : Grows r s) (ha : Agree r read s d)
    (hd : decimalEscape body = false) (hleft : (stringBody quote start s read continued).2.2.rest = tail)
    (hf : ∀ x ∈ r.reportedSince (stringBody quote start s read continued).2.2, x.problem ≠ .unterminatedString)
    (hright : (templateBody place t d).2.2.rest = tail') :
    Agree r (stringBody quote start s read continued).1 (stringBody quote start s read continued).2.2
      (templateBody place t d).1 := by
  induction hn : body.length using Nat.strongRecOn generalizing body s t d read continued with
  | ind n ih =>
      cases body with
      | nil =>
          rw [stringBody_quote start read continued hq h.left, templateBody_tick place d h.right]
          exact ha.push [] (errorFree_congr s.diagnostics_advance) rfl rfl
      | cons c body =>
          obtain ⟨hline, hquote, htick, hopen⟩ := h.inside hq hg hleft hf hright
          by_cases hescape : c = '\\'
          · subst hescape
            obtain ⟨e, body, rfl⟩ := List.exists_cons_of_ne_nil (h.ne_nil_of_escape hq hg hleft hf)
            obtain ⟨hdigit, hbody⟩ := decimalEscape_escape hd
            cases hbreak : isLineTerminator e with
            | true =>
                rw [stringBody_continuation start read continued hq h.left hbreak] at hleft hf ⊢
                rw [templateBody_continuation place d h.right hbreak] at hright ⊢
                refine ih _ ?_ (h.advance.skipLineBreak hq) hg.advance.skipLineBreak
                  (ha.push [] (errorFree_congr (by simp)) rfl rfl) ?_ hleft hf hright rfl
                · rw [← hn]
                  split <;> simp only [List.length_cons, List.length_tail] <;> omega
                · split
                  next hfeed =>
                    obtain ⟨body, rfl⟩ := List.head?_eq_some_iff.mp hfeed.2
                    rwa [decimalEscape_cons (by decide)] at hbody
                  next => exact hbody
            | false =>
                rw [stringBody_escape start read continued hq h.left hbreak] at hleft hf ⊢
                rw [templateBody_escape place d h.right hbreak] at hright ⊢
                have ha' : Agree r read s.advance (d.write ['\\']) :=
                  ha.push [] (errorFree_congr s.diagnostics_advance) rfl rfl
                obtain ⟨hagree, passed, left, rfl, hpassed, habreast⟩ :=
                  decodesAlike_escape start t.position hq hg.advance ha' h.advance hdigit
                rw [decimalEscape_append hpassed] at hbody
                refine ih _ ?_ habreast (hg.advance.stringEscape start e) hagree hbody hleft hf hright rfl
                rw [← hn, List.length_cons, List.length_cons, List.length_append]
                omega
          · have hdollar : c = '$' → (body ++ '\x60' :: tail').head? ≠ some '\x7b' := fun hc hhead =>
              hopen hc (head?_of_append (by decide) (by decide) hhead)
            have hagree : Agree r (c :: read) s.advance (d.push c) :=
              ha.push [c] (errorFree_congr s.diagnostics_advance) rfl rfl
            have hshort : body.length < n := by
              rw [← hn, List.length_cons]
              exact Nat.lt_succ_self _
            rw [stringBody_plain start read continued h.left hline hquote hescape] at hleft hf ⊢
            rw [templateBody_plain place d h.right htick hdollar (fun hc => hline (.inr hc)) hescape] at hright ⊢
            rw [decimalEscape_cons hescape] at hd
            by_cases hsep : (c == '\u2028' || c == '\u2029') = true
            · rw [if_pos hsep] at hleft hf ⊢
              exact ih _ hshort ⟨h.advance.left, h.advance.right⟩ (hg.advance.record _ _)
                ⟨hagree.valid, hagree.cooked⟩ hd hleft hf hright rfl
            · rw [if_neg hsep] at hleft hf ⊢
              exact ih _ hshort h.advance hg.advance hagree hd hleft hf hright rfl

end

/-! ## The literals -/

/-- That a line was continued is noted behind the end and is no error. -/
theorem stringLiteral_note (hg : Grows r s) (quote : Char) (start : Position) :
    (s.stringLiteral quote start).2.rest = (stringBody quote start s [] false).2.2.rest ∧
      Grows (stringBody quote start s [] false).2.2 (s.stringLiteral quote start).2 ∧
      (r.ErrorFree (s.stringLiteral quote start).2 ↔ r.ErrorFree (stringBody quote start s [] false).2.2) := by
  have hbody := hg.stringBody quote start [] false
  unfold stringLiteral
  generalize stringBody quote start s [] false = answer at hbody ⊢
  obtain ⟨read, continued, u⟩ := answer
  cases continued with
  | false => exact ⟨rfl, .refl u, Iff.rfl⟩
  | true => exact ⟨rfl, ((Grows.refl u).warning _ _).record _ _, hbody.errorFree_warning _ _⟩

/-- What was agreed on is what a finished piece holds. -/
theorem Agree.finish_cooked_eq_some_iff {read : List Char} (h : Agree r read s d) (start : Position) (last : Bool)
    (v : String) : (d.finish start last).cooked = some v ↔ r.ErrorFree s ∧ v = String.ofList read.reverse := by
  rw [← h.valid]
  show (if d.valid then some (String.ofList d.cooked.reverse) else none) = some v ↔ _
  cases hvalid : d.valid with
  | false => simp
  | true => simp [h.cooked hvalid, eq_comm]

/-- Two literals with one body hold the same, or an error was reported. -/
theorem cooked_templatePart_eq_some_iff {start place : Position} (hq : IsQuote quote)
    (h : Abreast quote tail tail' body s t) (hg : Grows r s) (hfree : r.ErrorFree s)
    (hd : decimalEscape body = false) (hleft : (s.stringLiteral quote start).2.rest = tail)
    (hf : ∀ x ∈ r.reportedSince (s.stringLiteral quote start).2, x.problem ≠ .unterminatedString)
    (hright : (t.templatePart place).2.rest = tail') (v : String) :
    (t.templatePart place).1.cooked = some v ↔
      r.ErrorFree (s.stringLiteral quote start).2 ∧ v = (s.stringLiteral quote start).1 := by
  obtain ⟨hrest, hgrows, herror⟩ := stringLiteral_note hg quote start
  rw [hrest] at hleft
  have hagree := agree_bodies hq h hg ⟨iff_of_true rfl hfree, fun _ => rfl⟩ hd hleft
    (fun x hx => hf x (mem_reportedSince_mono hgrows hx)) hright
  rw [herror]
  exact hagree.finish_cooked_eq_some_iff place _ v

/-! ## The tokens -/

/-- The lexer takes a delimiter, the body and the delimiter again for its next token: it goes on behind them and did not
miss the end, which would be the problem `unclosed`. -/
def ScansExactly (s : Lexer) (delimiter : Char) (unclosed : LexicalProblem) (body : List Char) : Prop :=
  ∃ tail, s.rest = delimiter :: (body ++ delimiter :: tail) ∧ s.nextToken.2.rest = tail ∧
    ∀ x ∈ s.reportedSince s.nextToken.2, x.problem ≠ unclosed

/-- **Strings and templates decode alike.** Let a lexer take a body between quotes for a string, and let another one
take the same body for a template, and let there be no digit behind a backslash in it but a zero that no digit
follows. Then the template has a decoded text if and only if no error was reported for the string, and then this
text is the value of the string. -/
theorem cooked_eq_some_iff (quote : Char) (hq : quote = '"' ∨ quote = '\'') (body : List Char)
    (hd : decimalEscape body = false) (s t : Lexer) (hs : s.ScansExactly quote .unterminatedString body)
    (ht : t.ScansExactly '\x60' .unterminatedTemplate body) :
    ∃ value part, s.nextToken.1.kind = .string value ∧ t.nextToken.1.kind = .template part ∧
      ∀ v, part.cooked = some v ↔ s.ErrorFree s.nextToken.2 ∧ v = value := by
  obtain ⟨tail, hrest, hleft, hf⟩ := hs
  obtain ⟨tail', hrest', hright, -⟩ := ht
  have habreast : Abreast quote tail tail' body ({ s with atLineStart := false } : Lexer).advance
      ({ t with atLineStart := false } : Lexer).advance := ⟨rest_advance hrest, rest_advance hrest'⟩
  have hg : Grows s ({ s with atLineStart := false } : Lexer).advance := ((Grows.refl s).move _ _ _).advance
  have hfree : s.ErrorFree ({ s with atLineStart := false } : Lexer).advance :=
    errorFree_of_eq (diagnostics_advance { s with atLineStart := false })
  rw [nextToken_string hq hrest] at hleft hf ⊢
  rw [nextToken_template hrest'] at hright ⊢
  exact ⟨_, _, rfl, rfl, cooked_templatePart_eq_some_iff hq habreast hg hfree hd hleft hf hright⟩

/-- Escapes by a code of two digits, of four digits and in braces, and a zero that ends before a letter. -/
theorem cooked_eq_some_iff_codes :
    let body := "\\x41\\u00e9\\0a".toList
    ∃ part, (ofChars ('\x60' :: (body ++ ['\x60'])) true).nextToken.1.kind = .template part ∧
      part.cooked = some "A\u00e9\x00a" := by
  intro body
  let s := ofChars ('"' :: (body ++ ['"'])) true
  let t := ofChars ('\x60' :: (body ++ ['\x60'])) true
  have hs : s.nextToken.2.diagnostics = s.diagnostics := by decide +kernel
  have ht : t.nextToken.2.diagnostics = t.diagnostics := by decide +kernel
  obtain ⟨value, part, hvalue, hpart, hcooked⟩ := cooked_eq_some_iff '"' (.inl rfl) body (by decide) s t
    ⟨[], rfl, by decide +kernel, by rw [reportedSince_of_eq hs]; nofun⟩
    ⟨[], rfl, by decide +kernel, by rw [reportedSince_of_eq ht]; nofun⟩
  have hstring : s.nextToken.1.kind = .string "A\u00e9\x00a" := by decide +kernel
  cases hvalue.symm.trans hstring
  exact ⟨part, hpart, (hcooked _).mpr ⟨errorFree_of_eq hs, rfl⟩⟩

end Lexer

end EcmaScript
