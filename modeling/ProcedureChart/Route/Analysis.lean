import ProcedureChart.Numeric.Integral
import ProcedureChart.Route.Enumerate

/-!
# Analysis of charts

Counts over the nodes and routes of a chart, and the number of random problems that can be expected
to hit every route.
-/

namespace ProcedureChart

/-- How many nodes there are of each kind. -/
structure NodeCounts where
  instruction : Nat := 0
  decision : Nat := 0
  checkpoint : Nat := 0
  milestone : Nat := 0
  embellishment : Nat := 0
  terminal : Nat := 0
  deriving Repr, DecidableEq

namespace NodeCounts

/-- The number of all nodes. -/
def total (n : NodeCounts) : Nat :=
  n.instruction + n.decision + n.checkpoint + n.milestone + n.embellishment + n.terminal

/-- The counts of a list of nodes. -/
def ofNodes (nodes : List Node) : NodeCounts :=
  let count (kind : NodeKind) : Nat := nodes.countP fun node => node.kind == kind
  { instruction := count .instruction
    decision := count .decision
    checkpoint := count .checkpoint
    milestone := count .milestone
    embellishment := count .embellishment
    terminal := count .terminal }

end NodeCounts

/-- Statistics of a chart and its routes. -/
structure Stats where
  nodeCounts : NodeCounts
  edgeCount : Nat
  cyclomaticComplexity : Int
  pathCount : Nat
  minPathLength : Nat
  maxPathLength : Nat
  minDecisions : Nat
  maxDecisions : Nat
  minCheckpoints : Nat
  maxCheckpoints : Nat
  recommendedIterations : Nat
  deriving Repr, DecidableEq

/-- The Euler–Mascheroni constant. -/
def eulerGamma : Float := 0.5772156649

/-- The least number of iterations ever recommended. -/
def minIterations : Nat := 100

/-- How many random problems to try in order to hit each of `pathCount` routes: the expected length
of collecting that many coupons, more of it the more the routes differ in their decisions, and never
less than ten for each combination of up to five decisions. -/
def recommendedIterations (pathCount minDecisions maxDecisions : Nat) : Nat :=
  let branching := Numeric.twoPow (min maxDecisions 5) * 10
  if pathCount = 0 then max branching minIterations
  else
    let n := Float.ofNat pathCount
    let skew := 1.0 + 0.5 * Float.ofNat (maxDecisions - minDecisions)
    let coupons := Numeric.toCount (Numeric.ceil (n * (n.log + eulerGamma) * skew))
    max (max coupons branching) minIterations

/-- The least and the greatest of some counts; zero if there are none. -/
def range (counts : List Nat) : Nat × Nat := (counts.min?.getD 0, counts.max?.getD 0)

/-- The routes of a chart and its statistics. -/
structure Analysis where
  routes : List Route
  stats : Stats
  truncated : Bool
  deriving DecidableEq

namespace Chart

/-- The statistics of a chart with the given routes. -/
def statsOf (c : Chart) (routes : List Route) : Stats :=
  let nodeCounts := NodeCounts.ofNodes c.definition.nodes.values
  let edgeCount := c.definition.nodes.keys.foldr (fun id n => (c.successors id).length + n) 0
  let lengths := range (routes.map fun r => r.nodeIds.length)
  let decisions := range (routes.map Route.decisionCount)
  let checkpoints := range (routes.map Route.checkpointCount)
  { nodeCounts
    edgeCount
    cyclomaticComplexity := (edgeCount : Int) - nodeCounts.total + 2
    pathCount := routes.length
    minPathLength := lengths.1
    maxPathLength := lengths.2
    minDecisions := decisions.1
    maxDecisions := decisions.2
    minCheckpoints := checkpoints.1
    maxCheckpoints := checkpoints.2
    recommendedIterations := recommendedIterations routes.length decisions.1 decisions.2 }

/-- Enumerates the routes of a chart and computes its statistics. -/
def analyze (c : Chart) (limits : Limits) : Analysis :=
  let e := c.enumerate limits
  { routes := e.routes, stats := c.statsOf e.routes, truncated := e.truncated }

end Chart

end ProcedureChart
