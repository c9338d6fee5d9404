import EcmaScript.Source

/-!
# Line tables

A `LineMap` remembers where the lines of a text start and finds the line of any offset by bisection.

## Contents

* `LineMap.ofText`: the table of a text.
* `LineMap.position`: line and column of an offset.
* `LineMap.lineCount`: the number of lines.
-/

namespace EcmaScript

/-- Where the lines of one text start. -/
structure LineMap where
  /-- Offsets of the first characters of the lines, in increasing order. -/
  lineStarts : Array Nat
  /-- Number of characters of the text. -/
  length : Nat
  deriving DecidableEq, Repr, Inhabited

namespace LineMap

/-- The offsets right after the line breaks of `text`, where `text` begins at `offset`. -/
def breakEnds (offset : Nat) : List Char → List Nat
  | [] => []
  | '\r' :: '\n' :: rest => (offset + 2) :: breakEnds (offset + 2) rest
  | c :: rest =>
    if isLineTerminator c then (offset + 1) :: breakEnds (offset + 1) rest
    else breakEnds (offset + 1) rest

/-- The line table of a text. -/
def ofChars (text : List Char) : LineMap :=
  ⟨(0 :: breakEnds 0 text).toArray, text.length⟩

/-- The line table of a text. -/
def ofText (text : String) : LineMap := ofChars text.toList

/-- The number of entries of `starts` in `[lo, hi)` and before that are at most `offset`, when the
entries before `lo` are and those from `hi` on are not: the interval is halved until it is empty. -/
def bisect (starts : Array Nat) (offset lo hi : Nat) : Nat :=
  if lo < hi then
    let mid := lo + (hi - lo) / 2
    if starts.getD mid 0 ≤ offset then bisect starts offset (mid + 1) hi
    else bisect starts offset lo mid
  else lo
termination_by hi - lo

/-- The place of the character at `offset`; offsets past the end stand for the end. -/
def position (m : LineMap) (offset : Nat) : Position :=
  let o := min offset m.length
  let line := bisect m.lineStarts o 0 m.lineStarts.size
  ⟨line, o - m.lineStarts.getD (line - 1) 0, o⟩

/-- The number of lines. -/
def lineCount (m : LineMap) : Nat := m.lineStarts.size

end LineMap

end EcmaScript
