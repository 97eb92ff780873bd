import ProcedureChart.Generate.Config
import ProcedureChart.Generate.Diagnostics
import ProcedureChart.Generate.Fields
import ProcedureChart.Route.Analysis

/-!
# Generation plans

Everything that generation needs and that does not depend on random draws: the routes of a chart,
and for each of them the values its fields can be drawn from. A plan is ready if there is a route at
all and if every independent field has preferred values.
-/

namespace ProcedureChart

/-- A route to generate examples for. -/
structure Target where
  route : Route
  fields : List FieldPlan
  signature : String
  signature_eq : signature = route.signature

/-- What generation works from. -/
structure Plan where
  chart : Chart
  config : Config
  userState : Scope
  analysis : Analysis
  targets : List Target
  /-- independent fields without preferred values -/
  missingPreferred : List String

/-- The target of a route. -/
def Target.ofRoute (d : Definition) (cap : Nat) (r : Route) : Target where
  route := r
  fields := d.planFields (d.routeFilters r) cap
  signature := r.signature
  signature_eq := rfl

namespace Plan

/-- The plan for a chart. -/
def make (chart : Chart) (config : Config) (constraints : UserConstraints) : Plan :=
  let d := chart.definition
  let analysis := chart.analyze config.limits
  { chart
    config
    userState := constraints.toUserState
    analysis
    targets := analysis.routes.map (Target.ofRoute d config.domainCap)
    missingPreferred :=
      (d.independentFields.filter fun f => (d.preferred f.name).isEmpty).map InputField.name }

/-- Whether generation can run. -/
def isReady (p : Plan) : Bool := p.missingPreferred.isEmpty && !p.targets.isEmpty

/-- The last target with a signature. -/
def targetOf? (p : Plan) (signature : String) : Option Target :=
  p.targets.foldl (fun found t => if t.signature == signature then some t else found) none

/-- The warnings about what keeps a plan from generating everything. -/
def warnings (p : Plan) : List String :=
  let id := p.chart.definition.id
  (if p.missingPreferred.isEmpty then []
    else ["Flowchart '" ++ id ++ "' declares no preferred values for: "
      ++ ", ".intercalate p.missingPreferred])
  ++ (if p.targets.isEmpty then
      ["Flowchart '" ++ id ++ "' has no route from entry to a terminal"] else [])
  ++ (if p.analysis.truncated then
      ["Route enumeration for '" ++ id ++ "' was truncated"] else [])

/-- The account of a run that has not begun. -/
def emptyReport (p : Plan) : RunReport where
  missingPreferred := p.missingPreferred
  pathCount := p.targets.length
  truncated := p.analysis.truncated
  recommendedIterations := p.analysis.stats.recommendedIterations
  warnings := p.warnings

end Plan

end ProcedureChart
