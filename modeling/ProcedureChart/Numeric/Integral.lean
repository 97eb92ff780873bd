import ProcedureChart.Numeric.Dyadic

/-!
# Integer parts and remainders

Rounding to a whole number and the remainder of a division, both exact. The results of all four
roundings and of the remainder are doubles again, so no second rounding takes place:
`remainder x y` has the sign of `x` and is smaller than `y` in magnitude.
-/

namespace ProcedureChart.Numeric

namespace Dyadic

/-- The magnitude cut to a whole number, and whether something was cut off. -/
def wholePart (d : Dyadic) : Nat × Bool :=
  if 0 ≤ d.exponent then (d.mantissa <<< d.exponent.toNat, false)
  else
    let shift := (-d.exponent).toNat
    (d.mantissa >>> shift, d.mantissa % twoPow shift != 0)

/-- Whether the number is whole. -/
def isIntegral (d : Dyadic) : Bool := !d.wholePart.2

/-- The number as an integer, cut toward zero. -/
def toInt (d : Dyadic) : Int :=
  if d.negative then -(d.wholePart.1 : Int) else d.wholePart.1

end Dyadic

/-- Rounds a finite double to a whole number of its own sign; `away` says when a magnitude with a
fractional part goes up. -/
def roundBy (away : Bool → Bool) (x : Float) : Float :=
  match dyadic? x with
  | none => x
  | some d =>
    let (whole, cut) := d.wholePart
    if cut then Dyadic.toFloat ⟨d.negative, if away d.negative then whole + 1 else whole, 0⟩ else x

/-- Rounds toward zero. -/
def trunc : Float → Float := roundBy fun _ => false

/-- Rounds toward negative infinity. -/
def floor : Float → Float := roundBy id

/-- Rounds toward positive infinity. -/
def ceil : Float → Float := roundBy (!·)

/-- Whether a double is a whole number. -/
def isIntegral (x : Float) : Bool := (dyadic? x).any Dyadic.isIntegral

/-- The remainder of dividing `x` by `y` toward zero. It keeps the sign of `x`; it is `x` itself
for an infinite `y`, and NaN for a zero `y`, an infinite `x` or a NaN on either side. -/
def remainder (x y : Float) : Float :=
  match dyadic? x, dyadic? y with
  | some a, some b =>
    if b.mantissa = 0 then nan
    else
      let exponent := min a.exponent b.exponent
      let dividend := a.mantissa <<< (a.exponent - exponent).toNat
      let divisor := b.mantissa <<< (b.exponent - exponent).toNat
      Dyadic.toFloat ⟨a.negative, dividend % divisor, exponent⟩
  | some _, none => if y.isNaN then nan else x
  | none, _ => nan

/-- An integer below which all numbers of the order come first: doubles sorted by this key are in
the total order of the format, where `-0` comes before `0`, negative NaNs before and positive NaNs
behind everything else. -/
def totalOrderKey (x : Float) : Int :=
  let bits := x.toBits.toNat
  if bits < twoPow 63 then bits else -((bits - twoPow 63 : Nat) : Int) - 1

/-- The count a double stands for: cut toward zero and kept within 64 bits, NaN being 0. -/
def toCount (x : Float) : Nat := x.toUInt64.toNat

/-- The least signed 64-bit integer. -/
def minInt64 : Int := -9223372036854775808

/-- The greatest signed 64-bit integer. -/
def maxInt64 : Int := 9223372036854775807

/-- The signed 64-bit integer nearest to a double, cut toward zero; NaN gives 0. -/
def toInt64 (x : Float) : Int :=
  match dyadic? x with
  | some d => max minInt64 (min maxInt64 d.toInt)
  | none => if x.isNaN then 0 else if x < 0.0 then minInt64 else maxInt64

end ProcedureChart.Numeric
