import ProcedureChart.Numeric.Dyadic

/-!
# Shortest digits

The decimal with the fewest digits that reads back as a given double, and its positional text.

All reals that round to the double `mantissa · 2 ^ exponent` lie in an interval around it. The
search walks the grids of multiples of a power of ten from coarse to fine and stops at the first
grid with a point in that interval; on such a grid only the two neighbours of the double matter.
-/

namespace ProcedureChart.Numeric

/-- Ten to a power. -/
abbrev tenPow (n : Nat) : Nat := Nat.pow 10 n

/-- The number `digits · 10 ^ exponent`. -/
structure Decimal where
  digits : Nat
  exponent : Int
  deriving Repr, DecidableEq

namespace Shortest

/-- The doubles' rounding interval around `mantissa · 2 ^ exponent`, in quarters of `2 ^ exponent`.
Below a power of two the neighbour is only half as far. -/
structure Interval where
  lower : Nat
  centre : Nat
  upper : Nat
  /-- whether the end points round to the double as well -/
  closed : Bool

/-- The reals that round to a positive double. A tie goes to the even mantissa. -/
def interval (mantissa : Nat) (exponent : Int) : Interval where
  lower := 4 * mantissa - if mantissa = twoPow 52 ∧ exponent ≠ minExponent then 1 else 2
  centre := 4 * mantissa
  upper := 4 * mantissa + 2
  closed := mantissa % 2 == 0

/-- The point of the grid of multiples of `10 ^ scale` that lies in the interval, the nearer one of
two and the upper one of two equally near. -/
def pointOnGrid (i : Interval) (exponent scale : Int) : Option Nat :=
  -- both sides in a common unit: a quarter is `quarter` units, a grid step is `step` units
  let quarter := twoPow (exponent - 2).toNat * tenPow (-scale).toNat
  let step := twoPow (2 - exponent).toNat * tenPow scale.toNat
  let centre := i.centre * quarter
  let below := centre / step
  let inside (point : Nat) : Bool :=
    let x := point * step
    if i.closed then i.lower * quarter ≤ x && x ≤ i.upper * quarter
    else i.lower * quarter < x && x < i.upper * quarter
  match inside below, inside (below + 1) with
  | true, true => some (if 2 * (centre % step) < step then below else below + 1)
  | true, false => some below
  | false, true => some (below + 1)
  | false, false => none

/-- The first grid with a point in the interval, among `tries` grids from `10 ^ scale` downward. -/
def search (i : Interval) (exponent : Int) : (tries : Nat) → (scale : Int) → Decimal
  | 0, scale => ⟨0, scale⟩
  | tries + 1, scale =>
    match pointOnGrid i exponent scale with
    | some point => ⟨point, scale⟩
    | none => search i exponent tries (scale - 1)

end Shortest

/-- The decimal of fewest digits that rounds to the positive double `mantissa · 2 ^ exponent`.
Seventeen digits always suffice, so the search meets a grid within its tries. -/
def shortest (mantissa : Nat) (exponent : Int) : Decimal :=
  let magnitude := ((mantissa.log2 : Int) + exponent) * 30103 / 100000
  Shortest.search (Shortest.interval mantissa exponent) exponent 24 (magnitude + 2)

/-- A decimal written out with a point and zeros, never with an exponent. -/
def Decimal.positional (d : Decimal) : String :=
  let text := toString d.digits
  if 0 ≤ d.exponent then text ++ "".pushn '0' d.exponent.toNat
  else
    let places := (-d.exponent).toNat
    if places < text.length then
      String.ofList (text.toList.take (text.length - places)) ++ "."
        ++ String.ofList (text.toList.drop (text.length - places))
    else "0." ++ "".pushn '0' (places - text.length) ++ text

/-- The positional text of a double: the shortest digits that read back, a minus sign for a set
sign bit, `inf` and `NaN` for what is not finite. -/
def positional (x : Float) : String :=
  match dyadic? x with
  | some d =>
    let sign := if d.negative then "-" else ""
    if d.mantissa = 0 then sign ++ "0" else sign ++ (shortest d.mantissa d.exponent).positional
  | none => if x.isNaN then "NaN" else if x < 0.0 then "-inf" else "inf"

end ProcedureChart.Numeric
