import ProcedureChart.Numeric.Integral

/-!
# JSON values

The values of the data format that charts are stored in. An object is a list of fields in the order
of its text, in which a name may occur more than once: what a repeated name means is for the reader
of the object to say. A number keeps whether it was written as an integer, because counts are read
from integers only.
-/

namespace ProcedureChart

/-- A number of a JSON text. -/
inductive Json.Number where
  /-- a number without fraction and exponent that fits 64 bits -/
  | integer (n : Int)
  | real (x : Float)
  deriving Repr, DecidableEq

/-- A JSON value. -/
inductive Json where
  | null
  | bool (b : Bool)
  | number (n : Json.Number)
  | text (s : String)
  | list (items : List Json)
  | object (fields : List (String × Json))
  deriving Repr, Inhabited

namespace Json

/-- The double that a number stands for. -/
def Number.toFloat : Number → Float
  | integer n => Float.ofInt n
  | real x => x

/-- The double inside a number. -/
def float? : Json → Option Float
  | number n => some n.toFloat
  | _ => none

/-- The count inside a number: an integer that is not negative. -/
def count? : Json → Option Nat
  | number (.integer (.ofNat n)) => some n
  | _ => none

/-- The text inside a text. -/
def text? : Json → Option String
  | text s => some s
  | _ => none

/-- The truth value inside a truth value. -/
def bool? : Json → Option Bool
  | bool b => some b
  | _ => none

/-- The items of a list. -/
def list? : Json → Option (List Json)
  | list items => some items
  | _ => none

/-- The fields of an object. -/
def object? : Json → Option (List (String × Json))
  | object fields => some fields
  | _ => none

end Json

end ProcedureChart
