import EcmaScript.Proofs.Segments
import EcmaScript.Proofs.Spelling.Escape

/-!
# A token that is written at the cursor

Where the next character is neither a blank nor the start of a comment or of a fault, the next token starts there
and depends on the reader for its first character alone. So a statement about how a kind of token is written is one
about its reader. A text that holds nothing but one token has that token and its end.

## Contents

* `Lexer.startsPlainly`: the characters that start a token, and nothing else.
* `Lexer.nextToken_eq_scan`: the token that starts with such a character.
* `Lexer.Sound.exists_scan`: the state in which any token was read.
* `Lexer.tokens_eq_pair`, `Lexer.Sole`: a text with one token.
-/

namespace EcmaScript

namespace Lexer

/-- Whether a token starts with the character, and neither a blank, a comment nor a fault does. -/
def startsPlainly (c : Char) : Bool :=
  startsToken c && !isLineTerminator c && !isBlank c && !(['/', '<', '-', '#'].contains c)

variable {s t : Lexer} {c : Char} {rest : List Char} {token : Token}

theorem nextIs_cons (hs : s.rest = c :: rest) (p : Char → Bool) : s.nextIs p = p c := by
  unfold nextIs
  rw [hs]
  rfl

/-- What holds of each code of a range holds of the characters in it. -/
theorem of_range {p : Char → Prop} (first count : Nat) (h : ∀ n < count, p (Char.ofNat (first + n)))
    (hfirst : first ≤ c.toNat) (hlast : c.toNat < first + count) : p c := by
  have hcode : first + (c.toNat - first) = c.toNat := by omega
  have hchar := h (c.toNat - first) (by omega)
  rwa [hcode, Char.ofNat_toNat] at hchar

/-- What holds of the ten digits. -/
theorem of_isDigit {p : Char → Prop} (h : ∀ n < 10, p (Char.ofNat (48 + n))) (hc : c.isDigit = true) : p c := by
  have hrange : 48 ≤ c.toNat ∧ c.toNat ≤ 57 := by
    simpa [Char.isDigit, UInt32.le_iff_toNat_le] using hc
  exact of_range 48 10 h hrange.1 (Nat.lt_succ_of_le hrange.2)

theorem of_startsPlainly (h : startsPlainly c = true) :
    startsToken c = true ∧ isLineTerminator c = false ∧ isBlank c = false ∧
      c ≠ '/' ∧ c ≠ '<' ∧ c ≠ '-' ∧ c ≠ '#' := by
  simpa [startsPlainly, and_assoc] using h

theorem skipTrivia_eq_self (hs : s.rest = c :: rest) (hline : isLineTerminator c = false) (hblank : isBlank c = false)
    (hslash : c ≠ '/') (hless : c ≠ '<') (hminus : c ≠ '-') (newline : Bool) :
    s.skipTrivia newline = (newline, s) := by
  rw [skipTrivia]
  split
  next hn => cases hs.symm.trans hn
  next heq =>
    cases hs.symm.trans heq
    have hno : (s.startsWith ['<', '!', '-', '-'] || (s.atLineStart && s.startsWith ['-', '-', '>'])) = false := by
      simp [startsWith, hs, List.isPrefixOf, Ne.symm hless, Ne.symm hminus]
    simp [hline, hblank, hslash, hno]

/-- Neither a blank nor a comment nor a fault is at the cursor. -/
theorem nextToken_of_scan (hs : s.rest = c :: rest) (htrivia : s.skipTrivia false = (false, s))
    (hfault : s.skipFault? = none) :
    s.nextToken =
      match scan { s with atLineStart := false } c with
      | ((kind, escaped), u) => (u.finish kind s.position false escaped, u) := by
  unfold nextToken
  rw [nextTokenFrom, htrivia]
  dsimp only
  split
  next u hu => cases hfault.symm.trans hu
  next =>
    split
    next hn => cases hs.symm.trans hn
    next heq => cases hs.symm.trans heq; rfl

theorem skipTrivia_of_startsPlainly (hs : s.rest = c :: rest) (hc : startsPlainly c = true) (newline : Bool) :
    s.skipTrivia newline = (newline, s) := by
  obtain ⟨-, hline, hblank, hslash, hless, hminus, -⟩ := of_startsPlainly hc
  exact skipTrivia_eq_self hs hline hblank hslash hless hminus newline

theorem skipFault?_of_startsPlainly (hs : s.rest = c :: rest) (hc : startsPlainly c = true) :
    s.skipFault? = none := by
  obtain ⟨hstarts, -, -, -, -, -, hsign⟩ := of_startsPlainly hc
  unfold skipFault?
  split
  next => rfl
  next heq => cases hs.symm.trans heq; exact absurd rfl hsign
  next heq => cases hs.symm.trans heq; exact if_pos hstarts

/-- **The token at the cursor** is what the reader for its first character gives. -/
theorem nextToken_eq_scan (hs : s.rest = c :: rest) (hc : startsPlainly c = true) :
    s.nextToken =
      match scan { s with atLineStart := false } c with
      | ((kind, escaped), u) => (u.finish kind s.position false escaped, u) :=
  nextToken_of_scan hs (skipTrivia_of_startsPlainly hs hc false) (skipFault?_of_startsPlainly hs hc)

/-- Behind blanks and comments a slash starts no comment. -/
theorem of_skipTrivia_eq_slash {newline : Bool} (h : (s.skipTrivia newline).2.rest = '/' :: rest) :
    rest.head? ≠ some '/' ∧ rest.head? ≠ some '*' := by
  fun_induction skipTrivia s newline with
  | case1 s newline hs => cases hs.symm.trans h
  | case2 _ _ _ _ _ _ ih => exact ih h
  | case3 _ _ _ _ _ _ _ ih => exact ih h
  | case4 _ _ _ _ _ _ _ _ ih => exact ih h
  | case5 _ _ _ _ _ _ _ _ _ _ ih => exact ih h
  | case6 _ _ _ _ _ _ _ _ _ _ ih => exact ih h
  | case7 _ _ _ _ _ _ _ _ _ _ ih => exact ih h
  | case8 s newline c tail hs _ _ hline hblock =>
      cases hs.symm.trans h
      simpa using And.intro hline hblock

/-- **Any token was read from a state** that the lexer came to without taking a note back, in which the token
starts, and which stands at no comment. -/
theorem Sound.exists_scan (h : s.Sound) (newline : Bool) (he : (s.nextTokenFrom newline).1.isEnd = false) :
    ∃ t c rest broken, t.Sound ∧ Grows s t ∧ t.rest = c :: rest ∧ isLineTerminator c = false ∧
      (c = '/' → rest.head? ≠ some '/' ∧ rest.head? ≠ some '*') ∧
      s.nextTokenFrom newline =
        ((t.scan c).2.finish (t.scan c).1.1 t.position broken (t.scan c).1.2, (t.scan c).2) := by
  -- behind a fault the search goes on with less of the text left
  induction hn : s.rest.length using Nat.strongRecOn generalizing s newline with
  | ind n ih =>
      obtain ⟨xs, -, hxs⟩ := gap_skipTrivia h newline
      have hg := (Grows.refl s).skipTrivia newline
      have hl := s.length_rest_skipTrivia_le newline
      have hslash (rest : List Char) (h : (s.skipTrivia newline).2.rest = '/' :: rest) := of_skipTrivia_eq_slash h
      rw [nextTokenFrom] at he ⊢
      split at he
      next broken t ht =>
        rw [ht] at hxs hg hl hslash
        split at he
        next u hu =>
          have hlt := Nat.lt_of_lt_of_le (length_rest_skipFault?_lt hu) hl
          obtain ⟨ys, -, hys⟩ := gap_skipFault hxs.sound hu
          obtain ⟨v, c, rest, b, hv, hgv, hread⟩ := ih _ (hn ▸ hlt) hys.sound broken he rfl
          exact ⟨v, c, rest, b, hv, (hg.trans hys.grows).trans hgv, hread⟩
        next hf =>
          split at he
          next => cases he
          next c rest hrest =>
            refine ⟨{ t with atLineStart := false }, c, rest, broken, { hxs.sound with }, hg.move _ _ _, hrest,
              isLineTerminator_of_skipFault hrest hf, ?_, rfl⟩
            rintro rfl
            exact hslash rest hrest

/-- At the end of the text there is its end. -/
theorem nextToken_of_rest_eq_nil (hs : s.rest = []) :
    s.nextToken = (s.finish .endOfText s.position false false, s) := by
  have htrivia : s.skipTrivia false = (false, s) := by
    rw [skipTrivia]
    split
    next => rfl
    next heq => cases hs.symm.trans heq
  have hfault : s.skipFault? = none := by
    unfold skipFault?
    rw [hs]
  unfold nextToken
  rw [nextTokenFrom, htrivia]
  dsimp only
  split
  next u hu => cases hfault.symm.trans hu
  next =>
    split
    next => rfl
    next heq => cases hs.symm.trans heq

/-- **A text with one token** has that token and its end. -/
theorem tokens_eq_pair (h : s.nextToken = (token, t)) (he : token.isEnd = false) (hs : s.rest = c :: rest)
    (ht : t.rest = []) : s.tokens = ([token, t.finish .endOfText t.position false false], t) := by
  have hlast : tokensFrom rest.length t = ([t.finish .endOfText t.position false false], t) := by
    cases hn : rest.length with
    | zero => rw [tokensFrom, nextToken_of_rest_eq_nil ht]
    | succ n =>
        rw [tokensFrom, nextToken_of_rest_eq_nil ht]
        exact if_pos rfl
  unfold tokens
  rw [hs, List.length_cons, tokensFrom, h]
  dsimp only
  rw [he, if_neg Bool.false_ne_true, hlast]

/-- The lexer behind the first character of a text. -/
def behindFirst (text : List Char) (strict : Bool) : Lexer :=
  ({ atStart text strict with atLineStart := false } : Lexer).advance

theorem quietly_behindFirst (c : Char) (rest : List Char) (strict : Bool) :
    Quietly [c] (atStart (c :: rest) strict) (behindFirst (c :: rest) strict) :=
  (Quietly.advance rfl).congr rfl rfl rfl

/-- The text is one token of the kind, over all of it. The lexer objects to nothing and ends in `t`. -/
structure Sole (text : List Char) (strict : Bool) (kind : TokenKind) (escaped : Bool) (t : Lexer) : Prop where
  tokens : (ofChars text strict).tokens =
    ([⟨kind, Span.between Position.start text.length, false, escaped⟩,
      ⟨.endOfText, Span.between t.position text.length, false, false⟩], t)
  diagnostics : t.diagnostics = #[]

namespace Sole

variable {text : List Char} {strict escaped : Bool} {kind : TokenKind}

/-- A text that its first token uses up. -/
theorem of_nextToken (h : (atStart text strict).nextToken = (t.finish kind Position.start false escaped, t))
    (hkind : kind ≠ .endOfText) (htext : text ≠ []) (hline : (['#', '!'].isPrefixOf text) = false)
    (hread : Quietly text (atStart text strict) t) : Sole text strict kind escaped t := by
  have hstart : ofChars text strict = atStart text strict := by
    rw [ofChars_eq]
    exact if_neg (ne_true_of_eq_false hline)
  have hend : (t.finish kind Position.start false escaped).isEnd = false := by
    cases kind <;> first | rfl | exact absurd rfl hkind
  have hoffset : t.position.offset = text.length := hread.offset.trans (Nat.zero_add _)
  have hrest : t.rest = [] := hread.rest_eq (List.append_nil text).symm
  obtain ⟨c, rest, hcons⟩ := List.exists_cons_of_ne_nil htext
  refine ⟨?_, hread.diagnostics⟩
  rw [hstart, tokens_eq_pair h hend hcons hrest]
  unfold finish
  rw [hoffset]

/-- A text whose first character leaves the token to its reader. -/
theorem of_scan (hc : startsPlainly c = true)
    (h : scan { atStart (c :: rest) strict with atLineStart := false } c = ((kind, escaped), t))
    (hkind : kind ≠ .endOfText) (hread : Quietly rest (behindFirst (c :: rest) strict) t) :
    Sole (c :: rest) strict kind escaped t := by
  obtain ⟨-, -, -, -, -, -, hsign⟩ := of_startsPlainly hc
  refine of_nextToken ?_ hkind (List.cons_ne_nil _ _) (by simp [List.isPrefixOf, Ne.symm hsign])
    ((quietly_behindFirst c rest strict).trans hread)
  rw [nextToken_eq_scan rfl hc, h]
  rfl

end Sole

end Lexer

end EcmaScript
