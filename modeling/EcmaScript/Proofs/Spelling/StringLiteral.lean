import EcmaScript.Proofs.Spelling.Escape
import EcmaScript.Proofs.Spelling.Round
import Mathlib.Data.List.Forall2

/-!
# What a string literal is written as

Every text can be written as a string literal, and in many ways: each of its characters stands for itself or is
written as an escape, whatever its neighbours are written as. The lexer reads the text back. One spelling is
undone by one round of its loop (`Lexer.stringRound_of_spells`), which stops right behind it; so spellings
do not run into each other, and the literal is an induction over its characters.

## Contents

* `StringEscape`, `StringSpells`: the spellings of a character in a string literal.
* `Lexer.exists_stringBody`: the inside of a literal.
* `Lexer.exists_nextToken_string`: the token, wherever a literal stands.
* `Lexer.tokens_stringLiteral`: a literal as a whole text.
-/

namespace EcmaScript

/-! ## Spellings -/

/-- The characters with a letter or mark of their own behind the backslash. -/
def letterEscapes : List (Char × Char) :=
  [('\x08', 'b'), ('\t', 't'), ('\n', 'n'), ('\x0b', 'v'), ('\x0c', 'f'), ('\r', 'r'), ('\'', '\''), ('"', '"'),
   ('\\', '\\')]

/-- The spellings of a character behind a backslash. -/
inductive StringEscape : Char → List Char → Prop where
  | unicode {c : Char} {spelling : List Char} : UnicodeSpells c spelling → StringEscape c ('u' :: spelling)
  /-- Two digits. -/
  | byte {c : Char} {digits : List Char} : digits.length = 2 → HexSpells c.toNat digits →
      StringEscape c ('x' :: digits)
  | letter {c letter : Char} : (c, letter) ∈ letterEscapes → StringEscape c [letter]

/-- The spellings of a character in a literal with the given quotes. -/
inductive StringSpells (quote : Char) : Char → List Char → Prop where
  | plain {c : Char} : c ≠ quote → c ≠ '\\' → c ≠ '\n' → c ≠ '\r' → StringSpells quote c [c]
  | escape {c : Char} {spelling : List Char} : StringEscape c spelling →
      StringSpells quote c ('\\' :: spelling)

namespace Lexer

variable {s : Lexer} {c quote : Char} {spelling rest value : List Char} {spellings : List (List Char)}

/-! ## One character -/

/-- What the lexer makes of a letter behind a backslash. -/
theorem stringEscape_letter (s : Lexer) (start : Position) {letter : Char} (h : (c, letter) ∈ letterEscapes) :
    s.stringEscape start letter = ([c], s.advance) ∧ isLineTerminator letter = false := by
  simp only [letterEscapes, List.mem_cons, List.not_mem_nil, or_false, Prod.mk.injEq] at h
  rcases h with ⟨rfl, rfl⟩ | ⟨rfl, rfl⟩ | ⟨rfl, rfl⟩ | ⟨rfl, rfl⟩ | ⟨rfl, rfl⟩ | ⟨rfl, rfl⟩ | ⟨rfl, rfl⟩ |
    ⟨rfl, rfl⟩ | ⟨rfl, rfl⟩ <;> exact ⟨rfl, rfl⟩

/-- **An escape gives the character that it spells.** -/
theorem exists_stringEscape (h : StringEscape c spelling) (hs : s.rest = spelling ++ rest) (start : Position) :
    ∃ first tail, spelling = first :: tail ∧ isLineTerminator first = false ∧
      ∃ t, s.stringEscape start first = ([c], t) ∧ Quietly spelling s t := by
  cases h with
  | unicode hspells =>
      obtain ⟨t, hread, ht⟩ := exists_unicodeEscapeOrReport hspells (rest_advance hs) .hexDigitExpected
      refine ⟨_, _, rfl, rfl, t, ?_, ht.cons hs⟩
      simp [stringEscape, controlEscape?, hread]
  | byte hlength hspells =>
      obtain ⟨digits, hdigits, hcode⟩ := hspells
      obtain ⟨t, hread, ht⟩ := exists_hexDigits hdigits (rest_advance hs) 0
      rw [foldl_eq_ofDigits, hcode, hlength] at hread
      refine ⟨_, _, rfl, rfl, t, ?_, ht.cons hs⟩
      simp [stringEscape, controlEscape?, hread, charOfCode?_toNat]
  | letter hmem =>
      obtain ⟨hread, hline⟩ := stringEscape_letter s start hmem
      exact ⟨_, _, rfl, hline, s.advance, hread, .advance hs⟩

/-- One round of the reader takes the spelling for the character, wherever it stands. -/
def StringRound (quote c : Char) (spelling : List Char) : Prop :=
  ∀ ⦃s : Lexer⦄ ⦃rest : List Char⦄, s.rest = spelling ++ rest →
    ∀ (start : Position) (read : List Char) (continued : Bool),
      ∃ t, stringBody quote start s read continued = stringBody quote start t (c :: read) continued ∧
        Quietly spelling s t

/-- **The step**: one round reads the spelling of one character. -/
theorem stringRound_of_spells (h : StringSpells quote c spelling) (hq : IsQuote quote) :
    StringRound quote c spelling := by
  intro s rest hs start read continued
  cases h with
  | plain hquote hbackslash hfeed hreturn =>
      have hround := stringBody_plain start read continued hs (not_or.mpr ⟨hfeed, hreturn⟩) hquote hbackslash
      refine ⟨_, hround, ?_⟩
      split
      · exact (Quietly.advance hs).congr rfl rfl rfl
      · exact .advance hs
  | @escape spelling hescape =>
      obtain ⟨first, tail, rfl, hline, t, hread, ht⟩ := exists_stringEscape hescape (rest_advance hs) start
      refine ⟨t, ?_, ht.cons hs⟩
      rw [stringBody_escape start read continued hq hs hline, hread]
      rfl

/-! ## The literal -/

/-- **The inside of a literal**, by induction on the characters that it spells. -/
theorem exists_stringBody (h : List.Forall₂ (StringRound quote) value spellings) (hq : IsQuote quote)
    (hs : s.rest = spellings.flatten ++ quote :: rest) (start : Position) (read : List Char) :
    ∃ t, stringBody quote start s read false = (value.reverse ++ read, false, t) ∧
      Quietly (spellings.flatten ++ [quote]) s t := by
  induction h generalizing s read with
  | nil => exact ⟨s.advance, stringBody_quote start read false hq hs, .advance hs⟩
  | @cons c spelling value spellings hspelling _ ih =>
      rw [List.flatten_cons, List.append_assoc] at hs ⊢
      obtain ⟨t, hround, ht⟩ := hspelling hs start read false
      obtain ⟨u, hbody, hu⟩ := ih (ht.rest_eq hs) (c :: read)
      refine ⟨u, ?_, ht.trans hu⟩
      rw [hround, hbody, List.reverse_cons, List.append_assoc]
      rfl

/-- **Wherever a literal stands**, the lexer reads it as one token, round by round. -/
theorem exists_nextToken_rounds (h : List.Forall₂ (StringRound quote) value spellings) (hq : IsQuote quote)
    (hs : s.rest = quote :: (spellings.flatten ++ quote :: rest)) :
    ∃ t, s.nextToken =
        (⟨.string (String.ofList value), Span.between s.position t.position.offset, false, false⟩, t) ∧
      Quietly (quote :: (spellings.flatten ++ [quote])) s t := by
  let u : Lexer := { s with atLineStart := false }
  have hu : u.rest = quote :: (spellings.flatten ++ quote :: rest) := hs
  obtain ⟨t, hbody, ht⟩ := exists_stringBody h hq (rest_advance hu) s.position []
  have hliteral : u.advance.stringLiteral quote s.position = (String.ofList value, t) := by
    unfold stringLiteral
    rw [hbody, List.append_nil]
    simp only [List.reverse_reverse, Bool.false_eq_true, if_false]
  refine ⟨t, ?_, (((Quietly.refl s).congr (t := u) rfl rfl rfl).trans (.advance hu)).trans ht⟩
  rw [nextToken_string hq hs, hliteral]
  rfl

theorem exists_nextToken_string (h : List.Forall₂ (StringSpells quote) value spellings) (hq : IsQuote quote)
    (hs : s.rest = quote :: (spellings.flatten ++ quote :: rest)) :
    ∃ t, s.nextToken =
        (⟨.string (String.ofList value), Span.between s.position t.position.offset, false, false⟩, t) ∧
      Quietly (quote :: (spellings.flatten ++ [quote])) s t :=
  exists_nextToken_rounds (h.imp fun _ _ hspells => stringRound_of_spells hspells hq) hq hs

/-- **A string literal gives back the text it was written for.** Let each character of a text be written in any of
its ways: as itself, if it is neither a quote of this literal, a backslash, a line feed nor a carriage return; by its
code in braces, with any digits; by its code with four digits or with two; by its letter. Between quotes this is
one token over all that was written, it has the text for its value, and nothing is objected to. -/
theorem tokens_stringLiteral (quote : Char) (hq : quote = '"' ∨ quote = '\'') (value : String)
    (spellings : List (List Char)) (h : List.Forall₂ (StringSpells quote) value.toList spellings) (strict : Bool) :
    let text := quote :: (spellings.flatten ++ [quote])
    ∃ stop t, (ofChars text strict).tokens =
        ([⟨.string value, Span.between Position.start text.length, false, false⟩, stop], t) ∧
      stop.isEnd = true ∧ t.diagnostics = #[] := by
  intro text
  have hstart : ofChars text strict = atStart text strict := by
    rw [ofChars_eq]
    refine if_neg ?_
    obtain rfl | rfl := hq <;> simp [startsWith, atStart, text, List.isPrefixOf]
  have hrest : (atStart text strict).rest = quote :: (spellings.flatten ++ quote :: []) := rfl
  obtain ⟨t, htoken, ht⟩ := exists_nextToken_string h hq hrest
  have hend : t.rest = [] := ht.rest_eq (by rw [hrest, List.append_nil])
  have hoffset : t.position.offset = text.length := by
    rw [ht.offset]
    exact Nat.zero_add _
  rw [hstart, tokens_eq_pair htoken rfl hrest hend, hoffset, String.ofList_toList]
  exact ⟨_, t, rfl, rfl, ht.diagnostics⟩

/-- A quote by its letter, a line feed by its code with two digits, a letter as itself and by its code in braces
behind zeros, and a character by its code with four digits. -/
theorem tokens_stringLiteral_ways :
    ∃ stop t, (ofChars "\"\\\"\\x0Aa\\u\x7b00061\x7d\\u00e9\"".toList false).tokens =
        ([⟨.string "\"\naa\u00e9", Span.between Position.start 24, false, false⟩, stop], t) ∧
      stop.isEnd = true ∧ t.diagnostics = #[] :=
  have quoteMark : StringSpells '"' '"' ['\\', '"'] := .escape (.letter (by decide))
  have lineFeed : StringSpells '"' '\n' ['\\', 'x', '0', 'A'] :=
    .escape (.byte rfl ⟨[0, 10], by decide, by decide⟩)
  have letter : StringSpells '"' 'a' ['a'] := .plain (by decide) (by decide) (by decide) (by decide)
  have zeros : UnicodeSpells 'a' ('\x7b' :: (['0', '0', '0', '6', '1'] ++ ['\x7d'])) :=
    .braced (by decide) ⟨[0, 0, 0, 6, 1], by decide, by decide⟩
  have four : UnicodeSpells '\u00e9' ['0', '0', 'e', '9'] := .four rfl ⟨[0, 0, 14, 9], by decide, by decide⟩
  tokens_stringLiteral '"' (.inl rfl) "\"\naa\u00e9" _
    (.cons quoteMark (.cons lineFeed (.cons letter (.cons (.escape (.unicode zeros))
      (.cons (.escape (.unicode four)) .nil))))) false

end Lexer

end EcmaScript
