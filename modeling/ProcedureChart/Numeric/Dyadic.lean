/-!
# Doubles as dyadic numbers

A finite double is a sign, a whole mantissa and a power of two. Everything in this library that
needs an exact answer about a double (its remainder, its integer part, its shortest digits) is
computed on that view in whole numbers. `dyadic?` reads the view off the bits of a double and
`Dyadic.toFloat` packs it back.
-/

namespace ProcedureChart.Numeric

/-- Two to a power. -/
abbrev twoPow (n : Nat) : Nat := Nat.pow 2 n

/-- The number `± mantissa · 2 ^ exponent`. A zero keeps its sign. -/
structure Dyadic where
  /-- whether the sign bit is set -/
  negative : Bool
  /-- the magnitude in units of `2 ^ exponent` -/
  mantissa : Nat
  /-- the power of two that scales the mantissa -/
  exponent : Int
  deriving Repr, DecidableEq

/-- The exponent of the finest grid of doubles, on which the subnormal numbers lie. -/
def minExponent : Int := -1074

/-- The sign, exponent field and fraction field of a double. -/
def fields (x : Float) : Bool × Nat × Nat :=
  let bits := x.toBits.toNat
  (bits / twoPow 63 == 1, bits / twoPow 52 % twoPow 11, bits % twoPow 52)

/-- The dyadic view of a finite double; infinities and NaN have none. -/
def dyadic? (x : Float) : Option Dyadic :=
  match fields x with
  | (negative, 2047, _) => let _ := negative; none
  | (negative, 0, fraction) => some ⟨negative, fraction, minExponent⟩
  | (negative, field, fraction) => some ⟨negative, fraction + twoPow 52, field - 1075⟩

/-- The bits of `mantissa · 2 ^ exponent`, which must be a double's magnitude exactly. -/
def magnitudeBits (mantissa : Nat) (exponent : Int) : Nat :=
  if mantissa = 0 then 0
  else
    -- move the leading bit to place 52, or as near to it as the finest grid allows
    let shift := min (52 - (mantissa.log2 : Int)) (exponent - minExponent)
    let aligned := if shift < 0 then mantissa >>> (-shift).toNat else mantissa <<< shift.toNat
    if aligned < twoPow 52 then aligned
    else ((exponent - shift + 1075).toNat <<< 52) + (aligned - twoPow 52)

/-- The double that a dyadic number is, when it is one. -/
def Dyadic.toFloat (d : Dyadic) : Float :=
  let sign := if d.negative then twoPow 63 else 0
  Float.ofBits (UInt64.ofNat (sign + magnitudeBits d.mantissa d.exponent))

/-- A NaN. -/
def nan : Float := 0.0 / 0.0

/-- Positive infinity. -/
def infinity : Float := 1.0 / 0.0

end ProcedureChart.Numeric
