import EcmaScript.Lexer.Basic

/-!
# Digits and escapes

Digits in a radix, and the escapes that names and strings share. Templates have readers of their own for them,
which write down what they read.

## Contents

* `digitValue?`: the value of a digit in a radix.
* `charOfCode?`: the character of a code point; a surrogate stands for the replacement character.
* `BoundedCode`: a code that is kept in 32 bits while its digits are read.
* `Lexer.unicodeEscape`: the part of an escape behind its letter, four digits or a braced code point.
-/

namespace EcmaScript

/-- The value of a digit or letter as a digit of the given radix. -/
def digitValue? (radix : Nat) (c : Char) : Option Nat :=
  let value :=
    if c.isDigit then c.toNat - '0'.toNat
    else if 'a' ≤ c && c ≤ 'z' then c.toNat - 'a'.toNat + 10
    else if 'A' ≤ c && c ≤ 'Z' then c.toNat - 'A'.toNat + 10
    else radix
  if value < radix then some value else none

/-- Whether the character is a digit of the given radix. -/
def isDigitOf (radix : Nat) (c : Char) : Bool := (digitValue? radix c).isSome

/-- The number written with the given digits. -/
def digitsValue (radix : Nat) (digits : List Char) : Nat :=
  digits.foldl (fun n c => n * radix + (digitValue? radix c).getD 0) 0

/-- The character with the given code; a surrogate code gives the replacement character, and codes
beyond the last code point give none. -/
def charOfCode? (code : Nat) : Option Char :=
  if 0x10FFFF < code then none
  else if 0xD800 ≤ code && code ≤ 0xDFFF then some '\uFFFD'
  else some (Char.ofNat code)

/-- The greatest number of 32 bits. -/
def greatestCode : Nat := 0xFFFFFFFF

/-- A code as it grows digit by digit in 32 bits. -/
structure BoundedCode where
  value : Nat := 0
  /-- Whether a digit did not fit. -/
  overflow : Bool := false
  deriving DecidableEq, Repr

namespace BoundedCode

/-- Adds a hexadecimal digit. -/
def add (code : BoundedCode) (digit : Nat) : BoundedCode :=
  if code.value * 16 + digit ≤ greatestCode then { code with value := code.value * 16 + digit }
  else { code with overflow := true }

/-- The character with the code, which is none behind an overflow. -/
def char? (code : BoundedCode) : Option Char :=
  if code.overflow then none else charOfCode? code.value

/-- The code where one that does not fit becomes the greatest one. -/
def saturated (code : BoundedCode) : Nat := if code.overflow then greatestCode else code.value

theorem saturated_add (code : BoundedCode) (digit : Nat) :
    (code.add digit).saturated = min (code.saturated * 16 + digit) greatestCode := by
  obtain ⟨value, _ | _⟩ := code <;> unfold add saturated greatestCode <;> dsimp only <;> split <;>
    simp <;> omega

/-- Behind an overflow the greatest code is too large for a character, too. -/
theorem char?_eq (code : BoundedCode) : code.char? = charOfCode? code.saturated := by
  obtain ⟨value, _ | _⟩ := code
  · rfl
  · rfl

end BoundedCode

/-- What is wrong with the body of a Unicode escape. -/
inductive EscapeFault where
  | badDigit
  | empty
  | undefined
  deriving DecidableEq, Repr

/-- The problem to report, where `badDigit` is the problem for a malformed digit. -/
def EscapeFault.problem (badDigit : LexicalProblem) : EscapeFault → LexicalProblem
  | .badDigit => badDigit
  | .empty => .emptyUnicodeEscape
  | .undefined => .undefinedCodePoint

namespace Lexer

/-- Reads exactly `n` hexadecimal digits, or as many as there are and gives none. -/
def hexDigits : Nat → Lexer → Nat → Option Nat × Lexer
  | 0, s, code => (some code, s)
  | n + 1, s, code =>
    match s.peek?.bind (digitValue? 16) with
    | none => (none, s)
    | some d => hexDigits n s.advance (code * 16 + d)

/-- Reads hexadecimal digits and a closing brace; stops at anything else and gives none. -/
def bracedDigits (s : Lexer) (code : BoundedCode) : Option BoundedCode × Lexer :=
  match _h : s.rest with
  | [] => (none, s)
  | c :: _ =>
    if c == '\x7d' then (some code, s.advance)
    else match digitValue? 16 c with
      | none => (none, s)
      | some d => bracedDigits s.advance (code.add d)
termination_by s.rest.length
decreasing_by simp [length_rest_advance, _h]

/-- Reads the body of a Unicode escape: four digits, or a code point in braces. -/
def unicodeEscape (s : Lexer) : Except EscapeFault Char × Lexer :=
  match s.rest with
  | '\x7b' :: '\x7d' :: _ => (.error .empty, s.advance.advance)
  | '\x7b' :: _ =>
    match s.advance.bracedDigits {} with
    | (none, t) => (.error .badDigit, t)
    | (some code, t) =>
      match code.char? with
      | none => (.error .undefined, t)
      | some c => (.ok c, t)
  | _ =>
    match hexDigits 4 s 0 with
    | (none, t) => (.error .badDigit, t)
    | (some code, t) => (.ok ((charOfCode? code).getD '\uFFFD'), t)

/-- Reads the body of a Unicode escape and reports what is wrong with it. -/
def unicodeEscapeOrReport (s : Lexer) (badDigit : LexicalProblem) : Option Char × Lexer :=
  match s.unicodeEscape with
  | (.ok c, t) => (some c, t)
  | (.error fault, t) => (none, t.error t.position (fault.problem badDigit))

/-! ## The cases of the readers -/

section

variable {s : Lexer} {c : Char} {rest : List Char}

theorem bracedDigits_cons (hs : s.rest = c :: rest) (code : BoundedCode) :
    s.bracedDigits code =
      if c == '\x7d' then (some code, s.advance)
      else match digitValue? 16 c with
        | none => (none, s)
        | some d => s.advance.bracedDigits (code.add d) := by
  rw [bracedDigits]
  split
  next hn => cases hs.symm.trans hn
  next heq => cases hs.symm.trans heq; rfl

theorem unicodeEscape_empty (hs : s.rest = '\x7b' :: '\x7d' :: rest) :
    s.unicodeEscape = (.error .empty, s.advance.advance) := by
  unfold unicodeEscape
  rw [hs]
  rfl

theorem unicodeEscape_braced (hs : s.rest = '\x7b' :: rest) (h : rest.head? ≠ some '\x7d') :
    s.unicodeEscape =
      match s.advance.bracedDigits {} with
      | (none, t) => (.error .badDigit, t)
      | (some code, t) =>
        match code.char? with
        | none => (.error .undefined, t)
        | some c => (.ok c, t) := by
  unfold unicodeEscape
  split
  next heq =>
    cases hs.symm.trans heq
    exact absurd rfl h
  next => rfl
  next hn => exact absurd hs (hn _)

theorem unicodeEscape_digits (h : s.rest.head? ≠ some '\x7b') :
    s.unicodeEscape =
      match hexDigits 4 s 0 with
      | (none, t) => (.error .badDigit, t)
      | (some code, t) => (.ok ((charOfCode? code).getD '\uFFFD'), t) := by
  unfold unicodeEscape
  split
  next heq => exact absurd (congrArg List.head? heq) h
  next heq => exact absurd (congrArg List.head? heq) h
  next => rfl

end

/-! ## Escapes never move back -/

theorem length_rest_hexDigits_le (n : Nat) (s : Lexer) (code : Nat) :
    (hexDigits n s code).2.rest.length ≤ s.rest.length := by
  induction n generalizing s code with
  | zero => simp [hexDigits]
  | succ n ih =>
    unfold hexDigits
    split
    · simp
    · exact Nat.le_trans (ih _ _) s.length_rest_advance_le

theorem length_rest_bracedDigits_le (s : Lexer) (code : BoundedCode) :
    (s.bracedDigits code).2.rest.length ≤ s.rest.length := by
  fun_induction bracedDigits s code with
  | case1 => simp
  | case2 s _ _ _ _ _ => exact s.length_rest_advance_le
  | case3 => simp
  | case4 s _ _ _ _ _ _ _ ih => exact Nat.le_trans ih s.length_rest_advance_le

theorem length_rest_unicodeEscape_le (s : Lexer) :
    s.unicodeEscape.2.rest.length ≤ s.rest.length := by
  unfold unicodeEscape
  split
  · exact Nat.le_trans (length_rest_advance_le _) s.length_rest_advance_le
  · have h := Nat.le_trans (length_rest_bracedDigits_le s.advance {}) s.length_rest_advance_le
    split
    next heq => rw [heq] at h; exact h
    next heq => rw [heq] at h; split <;> exact h
  · have h := length_rest_hexDigits_le 4 s 0
    split
    next heq => rw [heq] at h; exact h
    next heq => rw [heq] at h; exact h

theorem length_rest_unicodeEscapeOrReport_le (s : Lexer) (m : LexicalProblem) :
    (s.unicodeEscapeOrReport m).2.rest.length ≤ s.rest.length := by
  have h := s.length_rest_unicodeEscape_le
  unfold unicodeEscapeOrReport
  split
  next heq => rw [heq] at h; exact h
  next heq => rw [heq] at h; exact h

end Lexer

end EcmaScript
