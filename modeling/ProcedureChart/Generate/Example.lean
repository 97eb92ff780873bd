import ProcedureChart.Route.Basic

/-!
# Examples

A generated problem together with the route it takes.
-/

namespace ProcedureChart

/-- A problem and its route. -/
structure Example where
  /-- the values of all fields, drawn or derived -/
  values : Scope
  complexity : Complexity
  signature : String
  descriptor : String
  deriving DecidableEq

namespace Example

/-- The example of a problem that takes a route. -/
def ofRoute (r : Route) (values : Scope) : Example where
  values
  complexity := r.complexity
  signature := r.signature
  descriptor := r.descriptor

/-- The sum of the magnitudes of the values, in the order of their names. Without values it is the
neutral element of addition, `-0`. -/
def magnitude (e : Example) : Float :=
  e.values.values.foldl (fun sum v => sum + v.magnitude) (-0.0)

end Example

end ProcedureChart
