/-!
# Positions and spans in a source text

Offsets, columns and lengths count Unicode scalar values. Lines start at one, columns and offsets
at zero.

## Contents

* `Position`: one place in a text, by line, column and offset.
* `Span`: a contiguous region, by its first place and its length.
* `isLineTerminator`: the characters that end a line.
-/

namespace EcmaScript

/-- A place in a source text. -/
structure Position where
  /-- Line number; the first line is one. -/
  line : Nat
  /-- Distance from the start of the line. -/
  column : Nat
  /-- Distance from the start of the text. -/
  offset : Nat
  deriving DecidableEq, Repr, Inhabited

namespace Position

/-- The first place of every text. -/
def start : Position := ⟨1, 0, 0⟩

end Position

/-- A contiguous region of a source text. -/
structure Span where
  /-- Line of the first character. -/
  line : Nat
  /-- Column of the first character. -/
  column : Nat
  /-- Offset of the first character. -/
  offset : Nat
  /-- Number of characters. -/
  length : Nat
  deriving DecidableEq, Repr, Inhabited

namespace Span

/-- The `length` characters that begin at `start`. -/
def ofStart (start : Position) (length : Nat) : Span :=
  ⟨start.line, start.column, start.offset, length⟩

/-- The region from `start` up to, and without, the offset `stop`; empty when `stop` lies before
`start`. -/
def between (start : Position) (stop : Nat) : Span :=
  ofStart start (stop - start.offset)

/-- The empty region at `start`. -/
def emptyAt (start : Position) : Span := ofStart start 0

/-- The place of the first character. -/
def start (s : Span) : Position := ⟨s.line, s.column, s.offset⟩

/-- The offset one past the last character. -/
def stop (s : Span) : Nat := s.offset + s.length

/-- From the start of `s` to the later of the two ends. -/
def extendTo (s t : Span) : Span := between s.start (max s.stop t.stop)

/-- The region with the start of `s` that ends at the offset `stop`. -/
def withStop (s : Span) (stop : Nat) : Span := between s.start stop

@[simp] theorem start_ofStart (p : Position) (n : Nat) : (ofStart p n).start = p := rfl

@[simp] theorem start_between (p : Position) (n : Nat) : (between p n).start = p := rfl

@[simp] theorem start_extendTo (s t : Span) : (s.extendTo t).start = s.start := rfl

@[simp] theorem start_withStop (s : Span) (n : Nat) : (s.withStop n).start = s.start := rfl

theorem stop_between {p : Position} {n : Nat} (h : p.offset ≤ n) : (between p n).stop = n := by
  simp only [between, ofStart, stop]
  omega

theorem stop_extendTo (s t : Span) : (s.extendTo t).stop = max s.stop t.stop := by
  unfold extendTo
  rw [stop_between]
  simp only [start, stop]
  omega

end Span

/-- The four characters that end a line; a carriage return right before a line feed shares its line
break with it. -/
def isLineTerminator (c : Char) : Bool :=
  c == '\n' || c == '\r' || c == '\u2028' || c == '\u2029'

end EcmaScript
