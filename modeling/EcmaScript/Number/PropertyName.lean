import EcmaScript.Number.Decimal

/-!
# Numbers as property names

A number in the place of a property name stands for its text: all digits of an integer below
`10 ^ 21`, shortest digits otherwise, with an exponent from `10 ^ 21` on and below `10 ^ -6`.
-/

namespace EcmaScript

/-- Scientific notation: one digit before the point, and a sign in front of every exponent. -/
def Decimal.scientific (d : Decimal) : String :=
  let ds := Nat.toDigits 10 d.digits
  let e := d.exponent + ds.length - 1
  let fraction := if ds.length ≤ 1 then [] else '.' :: ds.drop 1
  String.ofList (ds.take 1 ++ fraction) ++ (if e < 0 then "e-" else "e+") ++ toString e.natAbs

namespace Double

/-- The value of a finite number that is an integer. -/
def integer? (x : Double) : Option Nat :=
  if 0 ≤ x.exponent then some (x.significand * twoPow x.exponent.toNat)
  else
    let unit := twoPow (-x.exponent).toNat
    if x.significand % unit = 0 then some (x.significand / unit) else none

/-- The text of the number as a property name. -/
def propertyName (x : Double) : String :=
  if x.isInfinite then "Infinity"
  else match x.integer? with
    | some n => if n < tenPow 21 then toString n else x.shortest.scientific
    | none =>
      if x.bits < (ofScientific 1 (-6)).bits then x.shortest.scientific else x.shortest.render

end Double

end EcmaScript
