import EcmaScript.Lexer.Escape
import EcmaScript.Proofs.Passage
import Mathlib.Data.Nat.Digits.Defs

/-!
# What an escape is written as

A character can be written by its code: in hexadecimal digits of either case, four of them or any number in
braces. This is said here without the lexer, as a relation between characters and their spellings, and the
readers of the lexer are shown to give back what was spelled, whatever follows. They read digits as long as there
are any or as many as they are told, so that a spelling has to be delimited by its length or by its brace.

## Contents

* `HexSpells`: the hexadecimal spellings of a number.
* `UnicodeSpells`: what stands behind the letter of a Unicode escape.
* `Lexer.Quietly`: reading on without noting a problem.
* `Lexer.exists_hexDigits`, `Lexer.exists_bracedDigits`, `Lexer.exists_unicodeEscape`: the readers.
-/

namespace EcmaScript

/-! ## Spellings -/

def lowerHexDigits : List Char := "0123456789abcdef".toList

def upperHexDigits : List Char := "0123456789ABCDEF".toList

/-- The digit with the value `d` can be written as `c`. -/
def HexDigit (d : Nat) (c : Char) : Prop := lowerHexDigits[d]? = some c ∨ upperHexDigits[d]? = some c

instance (d : Nat) (c : Char) : Decidable (HexDigit d c) := inferInstanceAs (Decidable (_ ∨ _))

/-- The digits, the highest first, are a hexadecimal spelling of the number. Zeros may stand in front. -/
def HexSpells (code : Nat) (spelling : List Char) : Prop :=
  ∃ digits : List Nat, List.Forall₂ HexDigit digits spelling ∧ Nat.ofDigits 16 digits.reverse = code

/-- The spellings of a character behind the letter of a Unicode escape. -/
inductive UnicodeSpells : Char → List Char → Prop where
  /-- Any spelling of its code, in braces. -/
  | braced {c : Char} {digits : List Char} : digits ≠ [] → HexSpells c.toNat digits →
      UnicodeSpells c ('\x7b' :: (digits ++ ['\x7d']))
  /-- A spelling of its code with four digits. -/
  | four {c : Char} {digits : List Char} : digits.length = 4 → HexSpells c.toNat digits → UnicodeSpells c digits

theorem digitValue?_of_hexDigit {d : Nat} {c : Char} (h : HexDigit d c) : digitValue? 16 c = some d := by
  have hlower : ∀ i : Fin lowerHexDigits.length, digitValue? 16 lowerHexDigits[i] = some i.val := by decide
  have hupper : ∀ i : Fin upperHexDigits.length, digitValue? 16 upperHexDigits[i] = some i.val := by decide
  obtain h | h := h
  · obtain ⟨hd, rfl⟩ := List.getElem?_eq_some_iff.mp h
    exact hlower ⟨d, hd⟩
  · obtain ⟨hd, rfl⟩ := List.getElem?_eq_some_iff.mp h
    exact hupper ⟨d, hd⟩

theorem HexDigit.ne_of_digitValue? {d : Nat} {c e : Char} (h : HexDigit d c) (he : digitValue? 16 e = none) :
    c ≠ e := by
  rintro rfl
  cases (digitValue?_of_hexDigit h).symm.trans he

/-- The value of digits as it grows while they are read. -/
theorem foldl_eq_ofDigits {radix : Nat} (digits : List Nat) :
    digits.foldl (fun n d => n * radix + d) 0 = Nat.ofDigits radix digits.reverse := by
  rw [Nat.ofDigits_eq_foldr, List.foldr_reverse]
  simp only [Nat.cast_id, Nat.mul_comm, Nat.add_comm]

/-- A character is the one with its code. -/
theorem charOfCode?_toNat (c : Char) : charOfCode? c.toNat = some c := by
  have hvalid : c.toNat < 0xD800 ∨ 0xDFFF < c.toNat ∧ c.toNat < 0x110000 := c.valid
  unfold charOfCode?
  rw [if_neg (by omega), if_neg (by simp only [Bool.and_eq_true, decide_eq_true_eq]; omega), Char.ofNat_toNat]

/-- A code that does not fit into 32 bits is that of no character. -/
theorem charOfCode?_min (code : Nat) : charOfCode? (min code greatestCode) = charOfCode? code := by
  by_cases h : code ≤ greatestCode
  · rw [Nat.min_eq_left h]
  · unfold charOfCode? greatestCode at *
    rw [if_pos (by omega), if_pos (by omega)]

theorem BoundedCode.saturated_foldl_add (digits : List Nat) {code : BoundedCode} {n : Nat}
    (h : code.saturated = min n greatestCode) :
    (digits.foldl BoundedCode.add code).saturated = min (digits.foldl (fun n d => n * 16 + d) n) greatestCode := by
  induction digits generalizing code n with
  | nil => exact h
  | cons d digits ih =>
      refine ih ?_
      rw [saturated_add, h]
      dsimp only
      omega

/-- Digits that are added up in 32 bits give the character that they spell. -/
theorem BoundedCode.char?_foldl_add (digits : List Nat) :
    (digits.foldl BoundedCode.add {}).char? = charOfCode? (Nat.ofDigits 16 digits.reverse) := by
  rw [char?_eq, saturated_foldl_add digits (n := 0) rfl, charOfCode?_min, foldl_eq_ofDigits]

namespace Lexer

variable {r s t : Lexer} {xs ys rest : List Char} {c : Char}

/-! ## Reading without problems -/

/-- The lexer came from `s` to `t` over the characters `read` and had nothing to object to. -/
structure Quietly (read : List Char) (s t : Lexer) : Prop extends Passes read s t where
  diagnostics : t.diagnostics = s.diagnostics

namespace Quietly

theorem refl (s : Lexer) : Quietly [] s s := ⟨.refl s, rfl⟩

theorem trans (h : Quietly xs r s) (h' : Quietly ys s t) : Quietly (xs ++ ys) r t :=
  ⟨h.toPasses.trans h'.toPasses, h'.diagnostics.trans h.diagnostics⟩

/-- What a state holds besides what is left of the text, the place in it and the problems does not matter. -/
theorem congr (h : Quietly xs r s) (hr : t.rest = s.rest) (hp : t.position = s.position)
    (hd : t.diagnostics = s.diagnostics) : Quietly xs r t :=
  ⟨h.toPasses.congr hr hp, hd.trans h.diagnostics⟩

theorem advance (h : s.rest = c :: rest) : Quietly [c] s s.advance := by
  refine ⟨.advance h, ?_⟩
  rw [advance_cons h]

/-- One more character in front. -/
theorem cons (h : s.rest = c :: rest) (h' : Quietly xs s.advance t) : Quietly (c :: xs) s t :=
  (advance h).trans h'

theorem skipWhile (p : Char → Bool) (s : Lexer) : Quietly (s.rest.takeWhile p) s (s.skipWhile p) := by
  refine ⟨.skipWhile p s, ?_⟩
  fun_induction Lexer.skipWhile p s with
  | case1 => rfl
  | case2 s c rest hs _ ih => rw [ih, advance_cons hs]
  | case3 => rfl

end Quietly

/-! ## The readers -/

theorem exists_hexDigits {digits : List Nat} (h : List.Forall₂ HexDigit digits xs) (hs : s.rest = xs ++ rest)
    (code : Nat) :
    ∃ t, hexDigits xs.length s code = (some (digits.foldl (fun n d => n * 16 + d) code), t) ∧
      Quietly xs s t := by
  induction h generalizing s code with
  | nil => exact ⟨s, rfl, .refl s⟩
  | @cons d c digits xs hd _ ih =>
      obtain ⟨t, hread, ht⟩ := ih (rest_advance hs) (code * 16 + d)
      have hnext : s.peek?.bind (digitValue? 16) = some d := by
        unfold peek?
        rw [hs]
        exact digitValue?_of_hexDigit hd
      refine ⟨t, ?_, ht.cons hs⟩
      rw [List.length_cons, hexDigits, hnext]
      exact hread

theorem exists_bracedDigits {digits : List Nat} (h : List.Forall₂ HexDigit digits xs)
    (hs : s.rest = xs ++ '\x7d' :: rest) (code : BoundedCode) :
    ∃ t, bracedDigits s code = (some (digits.foldl BoundedCode.add code), t) ∧
      Quietly (xs ++ ['\x7d']) s t := by
  induction h generalizing s code with
  | nil => exact ⟨s.advance, bracedDigits_cons hs code, .advance hs⟩
  | @cons d c digits xs hd _ ih =>
      obtain ⟨t, hread, ht⟩ := ih (rest_advance hs) (code.add d)
      refine ⟨t, ?_, ht.cons hs⟩
      rw [bracedDigits_cons hs, if_neg (by simpa using hd.ne_of_digitValue? (e := '\x7d') (by decide)),
        digitValue?_of_hexDigit hd]
      exact hread

/-- **Four digits give the character with their code**, which for a surrogate is the replacement character. -/
theorem exists_unicodeEscape_four {code : Nat} (hlength : xs.length = 4) (hspells : HexSpells code xs)
    (hs : s.rest = xs ++ rest) :
    ∃ t, s.unicodeEscape = (.ok ((charOfCode? code).getD '\uFFFD'), t) ∧ Quietly xs s t := by
  obtain ⟨digits, hdigits, hcode⟩ := hspells
  obtain ⟨t, hread, ht⟩ := exists_hexDigits hdigits hs 0
  rw [foldl_eq_ofDigits, hcode, hlength] at hread
  refine ⟨t, ?_, ht⟩
  have hbrace : s.rest.head? ≠ some '\x7b' := by
    rw [hs]
    cases hdigits with
    | nil => cases hlength
    | cons hd _ =>
        intro hhead
        exact hd.ne_of_digitValue? (e := '\x7b') (by decide) (Option.some.inj hhead)
  rw [unicodeEscape_digits hbrace, hread]

/-- **A Unicode escape gives the character that it spells.** -/
theorem exists_unicodeEscape (h : UnicodeSpells c xs) (hs : s.rest = xs ++ rest) :
    ∃ t, s.unicodeEscape = (.ok c, t) ∧ Quietly xs s t := by
  cases h with
  | @braced spelled hne hspells =>
      obtain ⟨digits, hdigits, hcode⟩ := hspells
      cases hdigits with
      | nil => exact absurd rfl hne
      | @cons d e digits spelled hd hdigits =>
          have hbody : s.advance.rest = (e :: spelled) ++ '\x7d' :: rest :=
            (rest_advance hs).trans (by simp)
          obtain ⟨t, hread, ht⟩ := exists_bracedDigits (.cons hd hdigits) hbody {}
          refine ⟨t, ?_, ht.cons hs⟩
          -- the digits are not empty, so the brace is not closed at once
          have hopen : e ≠ '\x7d' := hd.ne_of_digitValue? (by decide)
          rw [unicodeEscape_braced hs (by simpa using hopen), hread]
          simp only [BoundedCode.char?_foldl_add, hcode, charOfCode?_toNat]
  | four hlength hspells =>
      obtain ⟨t, hread, ht⟩ := exists_unicodeEscape_four hlength hspells hs
      rw [charOfCode?_toNat] at hread
      exact ⟨t, hread, ht⟩

/-- The same where a bad escape would be reported. -/
theorem exists_unicodeEscapeOrReport (h : UnicodeSpells c xs) (hs : s.rest = xs ++ rest) (badDigit : LexicalProblem) :
    ∃ t, s.unicodeEscapeOrReport badDigit = (some c, t) ∧ Quietly xs s t := by
  obtain ⟨t, hread, ht⟩ := exists_unicodeEscape h hs
  refine ⟨t, ?_, ht⟩
  unfold unicodeEscapeOrReport
  rw [hread]

end Lexer

end EcmaScript
