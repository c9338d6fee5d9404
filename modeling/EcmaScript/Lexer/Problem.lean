import EcmaScript.Diagnostic

/-!
# Lexical problems

What can be wrong with the spelling of a token, and how it is said.
-/

namespace EcmaScript

/-- A lexical problem. -/
inductive LexicalProblem where
  /-- A character that starts no token. -/
  | badStart (c : Char)
  /-- A shebang line that is not the first line. -/
  | misplacedShebang
  /-- A number sign without a name. -/
  | strayHash
  | unterminatedRegExp
  | lineBreakInRegExp
  | htmlComment
  | unterminatedComment
  | unterminatedString
  | unterminatedTemplate
  /-- A backslash at the end of a line of a string or template. -/
  | lineContinuation
  | hexDigitExpected
  | emptyUnicodeEscape
  | undefinedCodePoint
  | invalidEscape
  /-- An escape of a character that stands for itself. -/
  | unnecessaryEscape (c : Char)
  /-- An escape of a single quote in a template. -/
  | unnecessaryQuoteEscape
  /-- An octal number or escape in the old notation. -/
  | legacyOctal
  /-- No digit follows the radix mark of a number. -/
  | missingDigits (radix : String)
  | invalidOctalDigit
  | missingExponentDigits
  /-- An underscore that no digit follows. -/
  | trailingSeparator
  | bigintNotInteger
  | bigintLeadingZero
  deriving DecidableEq, Repr, Inhabited

namespace LexicalProblem

/-- Four or more upper-case hexadecimal digits of a code point. -/
def hexCode (c : Char) : String :=
  let ds := (Nat.toDigits 16 c.toNat).map Char.toUpper
  String.ofList (List.replicate (4 - ds.length) '0' ++ ds)

/-- The text of a problem. -/
def message : LexicalProblem → String
  | badStart c =>
    "Character '" ++ c.toString ++ "' (U+" ++ hexCode c ++ ") is not a valid identifier start char"
  | misplacedShebang => "Shebang comment must be at the start of the file"
  | strayHash => "Invalid usage of #"
  | unterminatedRegExp => "Expected '/' in regular expression literal"
  | lineBreakInRegExp => "New line not allowed in regular expression literal"
  | htmlComment =>
    "In some cases, '<!--' and '-->' are treated as a '//' for legacy reasons. " ++
      "Removing this from your code is safe for all browsers currently in use."
  | unterminatedComment => "unterminated comment"
  | unterminatedString => "Unterminated string literal"
  | unterminatedTemplate => "Unterminated template literal"
  | lineContinuation =>
    "String continuations are not recommended. See https://google.github.io/styleguide/" ++
      "jsguide.html#features-strings-no-line-continuations"
  | hexDigitExpected => "Hex digit expected"
  | emptyUnicodeEscape => "Empty unicode escape"
  | undefinedCodePoint => "Undefined Unicode code-point"
  | invalidEscape => "Invalid escape sequence"
  | unnecessaryEscape c =>
    "Unnecessary escape: '\\" ++ c.toString ++ "' is equivalent to just '" ++ c.toString ++ "'"
  | unnecessaryQuoteEscape => "Unnecessary escape: \"\\'\" is equivalent to just \"'\""
  | legacyOctal => "Octal integer literals are not supported in strict mode."
  | missingDigits radix => radix ++ " Integer Literal must contain at least one digit"
  | invalidOctalDigit => "Invalid octal digit in octal literal."
  | missingExponentDigits => "Exponent part must contain at least one digit"
  | trailingSeparator => "Trailing numeric separator"
  | bigintNotInteger => "SyntaxError: BigInt literals must be integers"
  | bigintLeadingZero => "SyntaxError: nonzero BigInt can't have leading zero"

end LexicalProblem

/-- A lexical problem at its place. -/
structure LexicalDiagnostic where
  position : Position
  problem : LexicalProblem
  severity : Severity
  deriving DecidableEq, Repr, Inhabited

end EcmaScript
