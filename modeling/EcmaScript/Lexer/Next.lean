import EcmaScript.Lexer.Name
import EcmaScript.Lexer.Numeral
import EcmaScript.Lexer.Text
import EcmaScript.Lexer.Trivia

/-!
# Tokens one by one

## Contents

* `Punctuator.atStart?`: the longest mark that a text starts with.
* `Lexer.nextToken`: the next token.
* `Lexer.lookAhead`: the next token, with the lexer back where it was.
* `Lexer.rescanRegExp`, `Lexer.rescanTemplate`: reads a slash or a closing brace again, as the start
  of a regular expression or as the continuation of a template. Only the grammar knows when.
-/

namespace EcmaScript

/-- All marks with their characters, longer ones first. -/
def Punctuator.longestFirst : List (List Char × Punctuator) :=
  [('>' :: '>' :: '>' :: ['='], shiftRightUnsignedAssign),
   ("...".toList, ellipsis), ("===".toList, strictEqual), ("!==".toList, strictNotEqual),
   ("**=".toList, starStarAssign), ("<<=".toList, shiftLeftAssign), (">>=".toList, shiftRightAssign),
   (">>>".toList, shiftRightUnsigned), ("&&=".toList, andAndAssign), ("||=".toList, orOrAssign),
   ("??=".toList, coalesceAssign),
   ("=>".toList, arrow), ("==".toList, equal), ("!=".toList, notEqual), ("<=".toList, lessEqual),
   (">=".toList, greaterEqual), ("**".toList, starStar), ("++".toList, plusPlus),
   ("--".toList, minusMinus), ("<<".toList, shiftLeft), (">>".toList, shiftRight),
   ("&&".toList, andAnd), ("||".toList, orOr), ("??".toList, coalesce), ("?.".toList, optionalChain),
   ("+=".toList, plusAssign), ("-=".toList, minusAssign), ("*=".toList, starAssign),
   ("/=".toList, slashAssign), ("%=".toList, percentAssign), ("&=".toList, ampersandAssign),
   ("|=".toList, barAssign), ("^=".toList, caretAssign),
   (['\x7b'], leftBrace), (['\x7d'], rightBrace), (['('], leftParen), ([')'], rightParen),
   (['['], leftBracket), ([']'], rightBracket), (['.'], dot), ([';'], semicolon), ([','], comma),
   (['<'], less), (['>'], greater), (['+'], plus), (['-'], minus), (['*'], star), (['/'], slash),
   (['%'], percent), (['&'], ampersand), (['|'], bar), (['^'], caret), (['!'], bang),
   (['~'], tilde), (['?'], question), ([':'], colon), (['='], assign)]

/-- The longest mark that a text starts with, and its length. A question mark and a point before a
digit are a condition and a number. -/
def Punctuator.atStart? (text : List Char) : Option (Punctuator × Nat) :=
  match longestFirst.find? fun m => m.1.isPrefixOf text with
  | none => none
  | some (mark, p) =>
    if p == optionalChain && ((text.drop 2).head?.any Char.isDigit) then some (question, 1)
    else some (p, mark.length)

namespace Lexer

/-- The token of the given kind from `start` to the present place. -/
def finish (s : Lexer) (kind : TokenKind) (start : Position) (newline escaped : Bool) : Token :=
  ⟨kind, Span.between start s.position.offset, newline, escaped⟩

/-- Reads the token that starts with `c`, which is the next character; says whether a name was
written with an escape. -/
def scan (s : Lexer) (c : Char) : (TokenKind × Bool) × Lexer :=
  let start := s.position
  let t := s.advance
  if c == '\x60' then
    match t.templatePart start with
    | (part, u) => ((.template part, false), u)
  else if c == '"' || c == '\'' then
    match t.stringLiteral c start with
    | (value, u) => ((.string value, false), u)
  else if c == '#' then t.privateName
  else if c.isDigit || (c == '.' && t.nextIs Char.isDigit) then
    match t.numeral c start with
    | (kind, u) => ((kind, false), u)
  else match Punctuator.atStart? s.rest with
    | some (mark, size) => ((.punctuator mark, false), advanceBy size s)
    | none => t.nameToken c start

/-- Reads the next token, over blanks, comments and segments that are no token. The flag `newline`
says whether a line break was read before. -/
def nextTokenFrom (s : Lexer) (newline : Bool) : Token × Lexer :=
  match _h : s.skipTrivia newline with
  | (broken, t) =>
    match _hf : t.skipFault? with
    | some u => nextTokenFrom u broken
    | none =>
      match t.rest with
      | [] => (t.finish .endOfText t.position broken false, t)
      | c :: _ =>
        match scan { t with atLineStart := false } c with
        | ((kind, escaped), u) => (u.finish kind t.position broken escaped, u)
termination_by s.rest.length
decreasing_by
  have h1 := s.length_rest_skipTrivia_le newline
  have h2 := length_rest_skipFault?_lt _hf
  rw [_h] at h1
  exact Nat.lt_of_lt_of_le h2 h1

/-- Reads the next token. -/
def nextToken (s : Lexer) : Token × Lexer := s.nextTokenFrom false

/-- Reads the next token and comes back to where the lexer is now. A checkpoint does not hold `overrun`, so it is
put back beside the rest. -/
def lookAhead (s : Lexer) : Token × Lexer :=
  match s.nextToken with
  | (token, t) => (token, { t.restore s.save with overrun := s.overrun })

/-- Reads the text from the start of the token `slash` on as a regular expression. -/
def rescanRegExp (s : Lexer) (slash : Token) : Token × Lexer :=
  match (s.rewind slash.start).advance.regExpLiteral with
  | ((pattern, flags), t) =>
    (t.finish (.regexp pattern flags) slash.start slash.newlineBefore false, t)

/-- Reads the text from the start of the token `brace` on as the continuation of a template. -/
def rescanTemplate (s : Lexer) (brace : Token) : Token × Lexer :=
  match (s.rewind brace.start).advance.templatePart brace.start with
  | (part, t) => (t.finish (.template part) brace.start brace.newlineBefore false, t)

/-- All tokens up to the end of the text, at most `fuel` before it. -/
def tokensFrom : Nat → Lexer → List Token × Lexer
  | 0, s =>
    match s.nextToken with
    | (t, s') => ([t], s')
  | fuel + 1, s =>
    match s.nextToken with
    | (t, s') =>
      if t.isEnd then ([t], s')
      else match tokensFrom fuel s' with
        | (ts, s'') => (t :: ts, s'')

/-- All tokens up to and with the end of the text. -/
def tokens (s : Lexer) : List Token × Lexer := tokensFrom s.rest.length s

end Lexer

end EcmaScript
