import EcmaScript.Source
import EcmaScript.Unicode

/-!
# The text of a documentation comment

A comment is read without its delimiters and without the star at the start of each line. Every
character keeps its place in the source.

## Contents

* `Region`: characters with their places, and the place behind the last one.
* `Region.ofComment`: the text of a comment.
* `Region.skipBlank`, `Region.text`: blanks, and the trimmed text of a region.
-/

namespace EcmaScript.Doc

/-- A stretch of characters, each with its place, and the place behind them. -/
structure Region where
  chars : List (Char × Position)
  stop : Position
  deriving DecidableEq, Repr, Inhabited

namespace Region

/-- The place of the first character, or behind the region if it is empty. -/
def position (r : Region) : Position :=
  match r.chars with
  | [] => r.stop
  | (_, p) :: _ => p

/-- The first character. -/
def head? (r : Region) : Option Char := r.chars.head?.map (·.1)

/-- The region without its first character. -/
def tail (r : Region) : Region := ⟨r.chars.tail, r.stop⟩

/-- The region from the first character that does not satisfy `p` on. -/
def dropWhile (r : Region) (p : Char → Bool) : Region := ⟨r.chars.dropWhile (p ·.1), r.stop⟩

/-- The characters up to the first one that does not satisfy `p`. -/
def takeWhile (r : Region) (p : Char → Bool) : List Char := (r.chars.takeWhile (p ·.1)).map (·.1)

/-- The region behind white space. -/
def skipBlank (r : Region) : Region := r.dropWhile Unicode.isWhiteSpace

/-- The characters alone. -/
def rawText (r : Region) : List Char := r.chars.map (·.1)

/-- The characters without white space at both ends. -/
def text (r : Region) : List Char := Unicode.trim r.rawText

/-- The trimmed text, if there is one. -/
def text? (r : Region) : Option String :=
  match r.text with
  | [] => none
  | cs => some (String.ofList cs)

def isBlank (r : Region) : Bool := r.rawText.all Unicode.isWhiteSpace

/-! ## From a comment to its text -/

/-- Number of leading delimiter characters, at most `limit`. -/
def openingLength : Nat → List Char → Nat
  | 0, _ => 0
  | _, [] => 0
  | limit + 1, c :: rest => if c == '/' || c == '*' then openingLength limit rest + 1 else 0

/-- Whether the list ends with a closing delimiter. -/
def isClosed (comment : List Char) : Bool := ['/', '*'].isPrefixOf comment.reverse

/-- Whether a line break ends with the character `c`, which `rest` follows. -/
def breaksLine (c : Char) (rest : List Char) : Bool :=
  isLineTerminator c && !(c == '\r' && rest.head? == some '\n')

/-- The place behind the character `c`, which `rest` follows; the carriage return of a pair takes no
column. -/
def after (p : Position) (c : Char) (rest : List Char) : Position :=
  if breaksLine c rest then ⟨p.line + 1, 0, p.offset + 1⟩
  else if isLineTerminator c then ⟨p.line, p.column, p.offset + 1⟩
  else ⟨p.line, p.column + 1, p.offset + 1⟩

/-- Collects the text of a comment from the character number `i` on. The text lies between `first` and
`last`. At the start of a line, blanks and one star are left out; a line break is a line feed. -/
def collect (first last : Nat) : Nat → Position → Bool → List Char →
    List (Char × Position) × Position
  | _, p, _, [] => ([], p)
  | i, p, atLineStart, c :: rest =>
    if first ≤ i && i < last then
      if isLineTerminator c then
        match collect first last (i + 1) (after p c rest) true rest with
        | (cs, stop) => (if breaksLine c rest then ('\n', p) :: cs else cs, stop)
      else if atLineStart && (c == ' ' || c == '\t') then
        collect first last (i + 1) (after p c rest) true rest
      else if atLineStart && c == '*' then
        collect first last (i + 1) (after p c rest) false rest
      else
        match collect first last (i + 1) (after p c rest) false rest with
        | (cs, stop) => ((c, p) :: cs, stop)
    else collect first last (i + 1) (after p c rest) atLineStart rest

/-- The text of a comment that starts at `start`. -/
def ofComment (comment : String) (start : Position) : Region :=
  let raw := comment.toList
  let first := openingLength 3 raw
  let last := if first + 2 ≤ raw.length && isClosed raw then raw.length - 2 else raw.length
  match collect first last 0 start false raw with
  | (chars, stop) => ⟨chars, stop⟩

end Region

end EcmaScript.Doc
