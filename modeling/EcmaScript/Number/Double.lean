/-!
# Numbers in double precision

A non-negative binary64 number is kept as its bits read as a natural number. On these numbers the
order of the bits is the order of the values, so the number next to another one is one bit pattern
away, and rounding up can carry from the significand into the exponent by plain addition.

## Contents

* `Double.ofRatio`: the nearest number to a quotient, a tie going to the even significand.
* `Double.ofNat`, `Double.ofScientific`: the nearest number to an integer and to a decimal.
* `Double.significand`, `Double.exponent`: the exact value of a finite number.
-/

namespace EcmaScript

/-- A non-negative binary64 number, infinity included, by its bits. -/
structure Double where
  bits : Nat
  deriving DecidableEq, Repr, Inhabited

namespace Double

/-- The power `2 ^ k`. -/
def twoPow (k : Nat) : Nat := Nat.pow 2 k

/-- The power `10 ^ k`. -/
def tenPow (k : Nat) : Nat := Nat.pow 10 k

/-- The weight of the leading bit of a normal significand, which is also the distance of two
exponents in the bits. -/
def leadingBit : Nat := twoPow 52

/-- Positive infinity: all exponent bits set. -/
def infinity : Double := ⟨0x7FF * leadingBit⟩

/-- The smallest exponent of the unit in the last place. -/
def minExponent : Int := -1074

/-- The number `q * 2 ^ e` for `q < 2 ^ 53`, or for `q = 2 ^ 53`, where `e` is at least the smallest
exponent and, unless it is the smallest one, `q` is at least `2 ^ 52`. -/
def pack (q : Nat) (e : Int) : Double :=
  let bits := (e - minExponent).toNat * leadingBit + q
  if bits < infinity.bits then ⟨bits⟩ else infinity

/-- The integer nearest to `n / d`, a tie going to the even one. -/
def divNearestEven (n d : Nat) : Nat :=
  let q := n / d
  let r := n % d
  if d < 2 * r || (2 * r == d && q % 2 == 1) then q + 1 else q

/-- The quotient `num / den` in units of `2 ^ e`, as a numerator and a denominator. -/
def scale (num den : Nat) (e : Int) : Nat × Nat :=
  if e < 0 then (num * twoPow (-e).toNat, den) else (num, den * twoPow e.toNat)

/-- The exponent of the unit in the last place of the numbers around `num / den`. -/
def unitExponent (num den : Nat) : Int :=
  let low : Int := num.log2 - den.log2 - 53
  let (n, d) := scale num den low
  max (if n / d < 2 * leadingBit then low else low + 1) minExponent

/-- The number nearest to `num / den`, a tie going to the even significand. -/
def ofRatio (num den : Nat) : Double :=
  if num = 0 then ⟨0⟩
  else
    let e := unitExponent num den
    let (n, d) := scale num den e
    pack (divNearestEven n d) e

/-- The number nearest to an integer. -/
def ofNat (n : Nat) : Double := ofRatio n 1

/-- The number nearest to `m * 10 ^ e`. Exponents far outside the range are decided without raising
ten to them. -/
def ofScientific (m : Nat) (e : Int) : Double :=
  if m = 0 then ⟨0⟩
  else if 400 < e then infinity
  else if e + 401 + m.log2 < 0 then ⟨0⟩
  else if e < 0 then ofRatio m (tenPow (-e).toNat)
  else ofRatio (m * tenPow e.toNat) 1

def isInfinite (x : Double) : Bool := infinity.bits ≤ x.bits

/-- The significand of a finite number, with its leading bit. -/
def significand (x : Double) : Nat :=
  if x.bits < leadingBit then x.bits else leadingBit + x.bits % leadingBit

/-- The exponent of the unit in the last place of a finite number. -/
def exponent (x : Double) : Int :=
  if x.bits < leadingBit then minExponent else (x.bits / leadingBit : Nat) - 1 + minExponent

end Double

end EcmaScript
