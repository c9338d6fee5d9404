import EcmaScript.Number.Double

/-!
# Integers of any size as numbers

An integer is made of words of 64 bits, the leading one of which may be shorter. An integer of more
than one word is shortened to its leading 64 bits before it is rounded. The last of these is set if a
bit behind them is seen, so that no rounding later on takes the integer for a tie. Only a part of
each word is searched for such a bit: as many of its low bits as the leading word has. Of an integer
of two words these are all bits behind the leading ones.

## Contents

* `Integer.leadingWidth`, `Integer.lowerWords`: the words of an integer.
* `Integer.sticky`: whether a bit behind the leading ones is seen.
* `Integer.shorten`: the leading bits, in place.
* `Double.ofInteger`: the number that an integer literal stands for.
-/

namespace EcmaScript

namespace Integer

/-- The number of bits of a word. -/
def wordSize : Nat := 64

/-- The number of bits of the leading word. -/
def leadingWidth (n : Nat) : Nat := n.log2 % wordSize + 1

/-- The number of words below the leading one. -/
def lowerWords (n : Nat) : Nat := n.log2 / wordSize

/-- Whether one of the lower words has a bit set among its low bits, of which as many are searched as
the leading word has. -/
def sticky (n : Nat) : Bool :=
  (List.range (lowerWords n)).any fun i =>
    (n >>> (wordSize * i)) % Double.twoPow (leadingWidth n) != 0

/-- The leading 64 bits in their place, all bits behind them zero; the last of the 64 is set if a bit
behind them is seen. An integer of one word is left as it is. -/
def shorten (n : Nat) : Nat :=
  if n.log2 < wordSize then n
  else
    let dropped := n.log2 + 1 - wordSize
    let leading := n >>> dropped
    (if sticky n then leading ||| 1 else leading) <<< dropped

/-- An integer of one word is not shortened. -/
theorem shorten_of_lt {n : Nat} (h : n.log2 < wordSize) : shorten n = n := by
  simp [shorten, h]

end Integer

/-- The number that an integer literal stands for: its shortened value, rounded to the nearest
number. -/
def Double.ofInteger (n : Nat) : Double := ofNat (Integer.shorten n)

end EcmaScript
