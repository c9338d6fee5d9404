import EcmaScript.Number.Double

/-!
# The shortest decimal of a number

`Double.shortest` finds the fewest digits that read back as the same number, and among those the
decimal nearest to it; `Double.render` writes them without an exponent.
-/

namespace EcmaScript

/-- The decimal `digits * 10 ^ exponent`. -/
structure Decimal where
  digits : Nat
  exponent : Int
  deriving DecidableEq, Repr, Inhabited

namespace Decimal

/-- Removes up to `limit` trailing zeros. -/
def trim : Nat → Decimal → Decimal
  | 0, d => d
  | limit + 1, d =>
    if d.digits ≠ 0 ∧ d.digits % 10 = 0 then trim limit ⟨d.digits / 10, d.exponent + 1⟩ else d

/-- Positional notation: no exponent, and no point in an integer. -/
def render (d : Decimal) : String :=
  let ds := Nat.toDigits 10 d.digits
  if 0 ≤ d.exponent then String.ofList (ds ++ List.replicate d.exponent.toNat '0')
  else
    let places := (-d.exponent).toNat
    let padded := List.replicate (places + 1 - ds.length) '0' ++ ds
    let whole := padded.length - places
    String.ofList (padded.take whole ++ '.' :: padded.drop whole)

end Decimal

namespace Double

/-- The reals that round to a number, as `low / scale` to `high / scale` around `value / scale`; the
ends belong to it when `closed` is set. -/
structure Rounding where
  low : Nat
  value : Nat
  high : Nat
  scale : Nat
  closed : Bool
  deriving DecidableEq, Repr

/-- The reals that round to `x`. Below a power of two the lower neighbour is half as far away. -/
def rounding (x : Double) : Rounding :=
  let m := x.significand
  let e := x.exponent - 2
  let below := if m = leadingBit ∧ minExponent < x.exponent then 1 else 2
  let unit := twoPow e.toNat
  ⟨(4 * m - below) * unit, 4 * m * unit, (4 * m + 2) * unit, twoPow (-e).toNat, m % 2 == 0⟩

namespace Rounding

/-- Whether `c * 10 ^ k` rounds to the number. -/
def holds (r : Rounding) (c : Nat) (k : Int) : Bool :=
  let v := c * tenPow k.toNat * r.scale
  let p := tenPow (-k).toNat
  if r.closed then r.low * p ≤ v && v ≤ r.high * p else r.low * p < v && v < r.high * p

/-- The decimal exponent of the leading digit of `value / scale`. -/
def leading (r : Rounding) : Int :=
  if r.scale ≤ r.value then (Nat.toDigits 10 (r.value / r.scale)).length - 1
  else fractional 400 1
where
  /-- The exponent of the first non-zero place from place `j` on. -/
  fractional : Nat → Nat → Int
  | 0, j => -j
  | fuel + 1, j => if r.scale ≤ r.value * tenPow j then -j else fractional fuel (j + 1)

/-- The decimal of the grid with step `10 ^ k` next to the value that rounds to the number: the
nearer one if both neighbours do, the upper one if they are equally near. -/
def onGrid (r : Rounding) (k : Int) : Option Decimal :=
  let n := r.value * tenPow (-k).toNat
  let d := r.scale * tenPow k.toNat
  let c := n / d
  let below := r.holds c k
  let above := r.holds (c + 1) k
  if below && above then some ⟨if d ≤ 2 * (n % d) then c + 1 else c, k⟩
  else if below then some ⟨c, k⟩
  else if above then some ⟨c + 1, k⟩
  else none

/-- The first hit on the grids with one digit, two digits and so on. -/
def search (r : Rounding) (k : Int) : Nat → Decimal
  | 0 => ⟨r.value / r.scale, 0⟩
  | fuel + 1 =>
    match r.onGrid k with
    | some d => d
    | none => r.search (k - 1) fuel

end Rounding

/-- The decimal with the fewest digits that rounds to the finite number `x`, the nearest of those. -/
def shortest (x : Double) : Decimal :=
  if x.bits = 0 then ⟨0, 0⟩
  else (x.rounding.search x.rounding.leading 20).trim 20

/-- Text of a number: shortest digits in positional notation. -/
def render (x : Double) : String :=
  if x.isInfinite then "inf" else x.shortest.render

end Double

end EcmaScript
