import ProcedureChart.Json.Record
import ProcedureChart.Value

/-!
# Values as JSON

A mixed number is an object with its three parts; every other value is the JSON value of its kind.
Lists and other objects are no values.
-/

namespace ProcedureChart

namespace Value

/-- The names of the parts of a mixed number. -/
def partNames : List String := ["whole", "num", "denom"]

/-- The value that a JSON value stands for. -/
def ofJson? : Json → Option Value
  | .null => some .null
  | .bool b => some (.bool b)
  | .number n => some (.number n.toFloat)
  | .text s => some (.text s)
  | .list _ => none
  | .object fields => do
    let fields ← Json.record? partNames (.object fields)
    let whole ← Json.required "whole" Json.float? fields
    let num ← Json.required "num" Json.float? fields
    let denom ← Json.required "denom" Json.float? fields
    return .mixed whole num denom

/-- The JSON value of a value. -/
def toJson : Value → Json
  | .null => .null
  | .bool b => .bool b
  | .number x => .ofFloat x
  | .text s => .text s
  | .mixed whole num denom =>
    .object [("whole", .ofFloat whole), ("num", .ofFloat num), ("denom", .ofFloat denom)]

end Value

namespace Scope

/-- The scope that an object stands for. -/
def ofJson? (j : Json) : Option Scope := Json.tableOf? Value.ofJson? j

/-- The object of a scope. -/
def toJson (s : Scope) : Json := Json.ofTable Value.toJson s

end Scope

end ProcedureChart
