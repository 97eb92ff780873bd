import ProcedureChart.Numeric.Integral
import ProcedureChart.Numeric.Reading
import ProcedureChart.Table
import ProcedureChart.Text.Character

/-!
# Values

The values that problems, variables and expressions are made of: nothing, truth values, numbers,
texts and mixed numbers such as `3 1/4`. A value has a number it stands for (`Value.toNumber`), a
truth value it stands for (`Value.truthy`), a text (`Value.display`) and a magnitude by which
examples are ranked. `Value.equals` is the equality of the expression language: it compares numbers
as numbers, so that `0` equals `-0` and NaN equals nothing.
-/

namespace ProcedureChart

/-- A value of a problem, a variable or an expression. -/
inductive Value where
  | null
  | bool (b : Bool)
  | number (x : Float)
  | text (s : String)
  /-- the number `whole + num / denom`, kept in its three parts -/
  | mixed (whole num denom : Float)
  deriving Repr, DecidableEq, Inhabited

/-- Values under names. -/
abbrev Scope := Table Value

namespace Value

/-- The number a value stands for in arithmetic and in order comparisons. A text stands for the
numeral it holds, blanks aside, and for 0 if it holds none but blanks; other texts and mixed numbers
stand for NaN. -/
def toNumber : Value → Float
  | .null => 0.0
  | .bool true => 1.0
  | .bool false => 0.0
  | .number x => x
  | .text s =>
    match Text.trim s.toList with
    | [] => 0.0
    | cs => (Numeric.readNumeral cs).getD Numeric.nan
  | .mixed .. => Numeric.nan

/-- The truth value a value stands for: null, 0, NaN and the empty text are false. -/
def truthy : Value → Bool
  | .null => false
  | .bool b => b
  | .number x => !(x == 0.0) && !x.isNaN
  | .text s => !s.isEmpty
  | .mixed .. => true

/-- Equality of values of one kind; values of different kinds differ. -/
def equals : Value → Value → Bool
  | .null, .null => true
  | .bool a, .bool b => a == b
  | .number x, .number y => x == y
  | .text s, .text t => s == t
  | .mixed w n d, .mixed w' n' d' => w == w' && n == n' && d == d'
  | _, _ => false

/-- The size by which readable numbers are preferred: a mixed number counts as a decimal, what is
not a finite number counts as 0. -/
def magnitude (v : Value) : Float :=
  let x := match v with
    | .number x => x
    | .mixed whole num denom => if denom == 0.0 then whole else whole + num / denom
    | _ => 0.0
  if x.isFinite then x else 0.0

/-- A part of a mixed number, by name. -/
def field? (v : Value) (name : String) : Option Value :=
  match v with
  | .mixed whole num denom =>
    match name with
    | "whole" => some (.number whole)
    | "num" => some (.number num)
    | "denom" => some (.number denom)
    | _ => none
  | _ => none

/-- What messages call a value of this kind. -/
def typeName : Value → String
  | .null => "null"
  | .bool _ => "boolean"
  | .number _ => "number"
  | .text _ => "string"
  | .mixed .. => "mixed number"

/-- The text inside a text value. -/
def text? : Value → Option String
  | .text s => some s
  | _ => none

/-! ### Display -/

/-- Whole numbers below this magnitude are displayed without their sign of zero. -/
def wholeDisplayBound : Float := 1e15

/-- The text of a number: a whole number of up to fifteen digits as an integer, any other finite
number by its shortest positional digits. -/
def displayNumber (x : Float) : String :=
  if x.isNaN then "NaN"
  else if x.isInf then if 0.0 < x then "Infinity" else "-Infinity"
  else if Numeric.isIntegral x && x.abs < wholeDisplayBound then toString (Numeric.toInt64 x)
  else Numeric.positional x

/-- The text of a value. -/
def display : Value → String
  | .null => "null"
  | .bool b => if b then "true" else "false"
  | .number x => displayNumber x
  | .text s => s
  | .mixed whole num denom =>
    displayNumber whole ++ " " ++ displayNumber num ++ "/" ++ displayNumber denom

end Value

/-- Whether two lists of entries hold equal values under the same names, in the same order. -/
def Scope.entriesEqual : List (String × Value) → List (String × Value) → Bool
  | [], [] => true
  | a :: s, b :: t => a.2.equals b.2 && a.1 == b.1 && entriesEqual s t
  | _, _ => false

/-- Whether two scopes hold equal values under the same names. -/
def Scope.equals (s t : Scope) : Bool := entriesEqual s.entries t.entries

end ProcedureChart
