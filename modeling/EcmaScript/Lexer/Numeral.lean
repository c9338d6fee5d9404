import EcmaScript.Lexer.Escape
import EcmaScript.Number.Integer

/-!
# Numeric literals

Integers in four radices, decimals with fraction and exponent, and integers of any size, with
underscores between digits. Each reader starts behind the first character of the literal.

## Contents

* `Lexer.digits`: digits of a radix, separators left out.
* `Lexer.radixNumeral`, `Lexer.legacyNumeral`, `Lexer.decimalNumeral`: the three forms.
* `Lexer.numeral`: any numeric literal.
-/

namespace EcmaScript

/-- The radices that a mark after a leading zero selects. -/
inductive Radix where
  | binary
  | octal
  | hexadecimal
  deriving DecidableEq, Repr

namespace Radix

/-- The radix that a letter selects. -/
def ofMark? : Char → Option Radix
  | 'b' | 'B' => some binary
  | 'o' | 'O' => some octal
  | 'x' | 'X' => some hexadecimal
  | _ => none

def base : Radix → Nat
  | binary => 2
  | octal => 8
  | hexadecimal => 16

/-- The word that diagnostics use. -/
def name : Radix → String
  | binary => "Binary"
  | octal => "Octal"
  | hexadecimal => "Hex"

/-- The feature that a literal of the radix needs. -/
def feature? : Radix → Option Feature
  | binary => some .binaryLiterals
  | octal => some .octalLiterals
  | hexadecimal => none

end Radix

namespace Lexer

/-- Reads digits of a radix with single underscores between them. Gives the digits in reverse; the
literal starts at `start`. -/
def digitsFrom (radix : Nat) (start : Position) (s : Lexer) (read : List Char) :
    List Char × Lexer :=
  match _h : s.rest with
  | [] => (read, s)
  | c :: _ =>
    if isDigitOf radix c then digitsFrom radix start s.advance (c :: read)
    else if c == '_' then
      if s.advance.nextIs (isDigitOf radix) then
        digitsFrom radix start (s.advance.record .numericSeparator start) read
      else
        digitsFrom radix start
          ((s.advance.record .numericSeparator start).error s.advance.position .trailingSeparator)
          read
    else (read, s)
termination_by s.rest.length
decreasing_by
  all_goals
    simp only [rest_error, rest_record, length_rest_advance, _h, List.length_cons]
    omega

/-- Reads digits of a radix with underscores between them, and gives the digits alone. -/
def digits (s : Lexer) (radix : Nat) (start : Position) : List Char × Lexer :=
  match digitsFrom radix start s [] with
  | (read, t) => (read.reverse, t)

/-- Reads a literal behind its radix mark. -/
def radixNumeral (s : Lexer) (radix : Radix) (start : Position) : TokenKind × Lexer :=
  let s := radix.feature?.elim s (s.record · start)
  let s :=
    if s.nextIs (isDigitOf radix.base) then s
    else s.error s.position (.missingDigits radix.name)
  match s.digits radix.base start with
  | (ds, t) =>
    let t :=
      if radix == .octal && t.nextIs Char.isDigit then
        (t.error t.position .invalidOctalDigit).skipWhile Char.isDigit
      else t
    let value := digitsValue radix.base ds
    if t.nextIs (· == 'n') then (.bigint value, t.advance) else (.number (.ofInteger value), t)

/-- Reads a literal behind a leading zero that a digit follows: octal unless it holds an eight or a
nine. -/
def legacyNumeral (s : Lexer) (start : Position) : TokenKind × Lexer :=
  let t := s.skipWhile Char.isDigit
  let whole := '0' :: s.rest.take (t.position.offset - s.position.offset)
  let isOctal := whole.all (isDigitOf 8)
  let hasPoint := !isOctal && t.nextIs (· == '.')
  let u := if hasPoint then t.advance.skipWhile Char.isDigit else t
  let fraction :=
    if hasPoint then t.advance.rest.take (u.position.offset - t.advance.position.offset) else []
  if u.nextIs (· == 'n') then
    let v := u.advance
    (.bigint (if hasPoint then 0 else digitsValue 10 whole), v.error v.position .bigintLeadingZero)
  else if isOctal then
    (.number (.ofInteger (digitsValue 8 whole)),
      u.report start .legacyOctal (if u.strict then .error else .warning))
  else (.number (.ofScientific (digitsValue 10 (whole ++ fraction)) (-fraction.length)), u)

/-- The size of an exponent with the given digits. Digits behind a size of 65536 or more are left
out: such an exponent is out of range already. -/
def exponentSize (digits : List Char) : Nat :=
  digits.foldl (fun n c => if n < 0x10000 then n * 10 + (digitValue? 10 c).getD 0 else n) 0

/-- Reads the exponent of a decimal literal, if there is one. -/
def exponentPart (s : Lexer) (start : Position) : Option Int × Lexer :=
  if s.nextIs fun c => c == 'e' || c == 'E' then
    let t := s.advance
    let negative := t.nextIs (· == '-')
    let t := if t.nextIs fun c => c == '+' || c == '-' then t.advance else t
    let t := if t.nextIs Char.isDigit then t else t.error t.position .missingExponentDigits
    match t.digits 10 start with
    | (ds, u) =>
      let size : Int := exponentSize ds
      (some (if negative then -size else size), u)
  else (none, s)

/-- Reads a decimal literal behind its first character, a digit or a point that a digit follows. -/
def decimalNumeral (s : Lexer) (first : Char) (start : Position) : TokenKind × Lexer :=
  let (whole, s) :=
    if first == '.' then (['0'], s)
    else match s.digits 10 start with
      | (ds, t) => (first :: ds, t)
  let pointRead := first != '.' && s.nextIs (· == '.')
  let hasPoint := first == '.' || pointRead
  let s := if pointRead then s.advance else s
  let (fraction, s) := if hasPoint && s.nextIs Char.isDigit then s.digits 10 start else ([], s)
  let (exponent, s) := s.exponentPart start
  if s.nextIs (· == 'n') then
    let t := s.advance
    (.bigint (digitsValue 10 whole),
      if hasPoint || exponent.isSome then t.error start .bigintNotInteger else t)
  else
    (.number (.ofScientific (digitsValue 10 (whole ++ fraction))
      (exponent.getD 0 - fraction.length)), s)

/-- Reads a numeric literal behind its first character. -/
def numeral (s : Lexer) (first : Char) (start : Position) : TokenKind × Lexer :=
  if first == '0' then
    match s.peek?.bind Radix.ofMark? with
    | some radix => s.advance.radixNumeral radix start
    | none =>
      if s.nextIs Char.isDigit then s.legacyNumeral start else s.decimalNumeral first start
  else s.decimalNumeral first start

end Lexer

end EcmaScript
