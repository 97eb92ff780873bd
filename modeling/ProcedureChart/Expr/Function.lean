import ProcedureChart.Expr.Error
import ProcedureChart.Value

/-!
# The function library

The eight functions an expression can call. All of them work on numbers: a call first finds the
function by its name, then checks the number of its arguments, and only then casts the arguments to
numbers, which cannot fail. Two of them run Euclid's loop, and that does not end at all numbers.
-/

namespace ProcedureChart.Expr

/-- A function of the library. -/
inductive Function where
  | lcm | gcd | min | max | abs | floor | ceil | mod
  deriving Repr, DecidableEq

namespace Function

/-- All functions, in the order of their declaration. -/
def all : List Function := [lcm, gcd, min, max, abs, floor, ceil, mod]

/-- The name a function is called by. -/
def name : Function → String
  | lcm => "lcm" | gcd => "gcd" | min => "min" | max => "max"
  | abs => "abs" | floor => "floor" | ceil => "ceil" | mod => "mod"

/-- How many arguments a function takes. -/
def arity : Function → Arity
  | lcm | gcd | mod => .exactly 2
  | min | max => .atLeast 2
  | abs | floor | ceil => .exactly 1

/-- The function of a name. -/
def ofName? (s : String) : Option Function := all.find? fun f => f.name == s

/-! ### What the functions compute -/

/-- A turn of Euclid's loop. It ends the loop when nothing is left to divide by, and goes on with
the remainder otherwise. -/
def divisorTurn : Float × Float → Float ⊕ (Float × Float)
  | (a, b) => if b == 0.0 then .inl a else .inr (b, Numeric.remainder a b)

/-- Euclid's loop. Its turns may never end it: once a remainder is NaN, all further ones are. A
program that runs into such a loop does not come back, so what the loop is equal to is left open
then. -/
def divisorLoop (a b : Float) : Float :=
  repeatM (m := Id) (fun state => (divisorTurn state).swap) (a, b)

/-- The greatest common divisor of the integer parts, signs aside. Two zeros have the divisor 0, and
with NaN it is NaN. -/
def commonDivisor (x y : Float) : Float :=
  if x.isNaN || y.isNaN then Numeric.nan
  else divisorLoop (Numeric.trunc x).abs (Numeric.trunc y).abs

/-- The least common multiple of the integer parts, as their product over their divisor. -/
def commonMultiple (x y : Float) : Float :=
  let divisor := commonDivisor x y
  if divisor == 0.0 then 0.0 else (Numeric.trunc x * Numeric.trunc y).abs / divisor

/-- The smaller of two numbers; NaN if one is NaN. -/
def smaller (x y : Float) : Float :=
  if x.isNaN || y.isNaN then Numeric.nan else if y < x then y else x

/-- The larger of two numbers; NaN if one is NaN. -/
def larger (x y : Float) : Float :=
  if x.isNaN || y.isNaN then Numeric.nan else if x < y then y else x

/-- The value of a function at arguments of a number that its arity accepts. -/
def apply : Function → List Float → Float
  | lcm, [x, y] => commonMultiple x y
  | gcd, [x, y] => commonDivisor x y
  | min, xs => xs.foldl smaller Numeric.infinity
  | max, xs => xs.foldl larger (-Numeric.infinity)
  | abs, [x] => x.abs
  | floor, [x] => Numeric.floor x
  | ceil, [x] => Numeric.ceil x
  | mod, [x, y] => Numeric.remainder x y
  | _, _ => Numeric.nan

end Function

/-- Calls the function of a name. -/
def callFunction (name : String) (args : List Value) : Except EvalError Value :=
  match Function.ofName? name with
  | none => .error (.unknownFunction name)
  | some f =>
    if f.arity.accepts args.length then .ok (.number (f.apply (args.map Value.toNumber)))
    else .error (.arity name f.arity args.length)

end ProcedureChart.Expr
