import ProcedureChart.Chart.Reading
import ProcedureChart.Chart.Writing
import ProcedureChart.Route.Analysis

/-!
# Route records

The constraints of routes, and the bounds on their enumeration, as JSON records that are read and
written; routes and statistics as records that are only written.
-/

namespace ProcedureChart

open Json (optional withDefault record? alternative? ofList ofOption ofNat)

namespace AnswerMode

/-- The name of a mode. -/
def name : AnswerMode → String
  | boolean => "boolean" | value => "value" | inferred => "inferred"

/-- All modes. -/
def all : List AnswerMode := [boolean, value, inferred]

/-- The mode of a name. -/
def ofJson? (j : Json) : Option AnswerMode := do
  let s ← alternative? j
  all.find? fun mode => mode.name == s

end AnswerMode

/-! ### Constraints and bounds -/

/-- Reads a condition for taking a route. -/
def RouteConstraint.ofJson? (j : Json) : Option RouteConstraint := do
  let r ← record? ["nodeId", "expression", "requiredOutcome", "optionValue", "mode"] j
  let nodeId ← Json.required "nodeId" Json.text? r
  let formula ← Json.required "expression" Formula.ofJson? r
  let outcome ← Json.required "requiredOutcome" Json.bool? r
  let optionValue ← optional "optionValue" Json.text? r
  let mode ← Json.required "mode" AnswerMode.ofJson? r
  return { nodeId, formula, required := outcome, optionValue, mode }

/-- Writes a condition for taking a route. -/
def RouteConstraint.toJson (k : RouteConstraint) : Json := .object [
  ("nodeId", .text k.nodeId),
  ("expression", k.formula.toJson),
  ("requiredOutcome", .bool k.required),
  ("optionValue", ofOption .text k.optionValue),
  ("mode", .text k.mode.name)]

/-- Reads bounds on the enumeration of routes. -/
def Limits.ofJson? (j : Json) : Option Limits := do
  let r ← record? ["maxPaths", "maxIterations"] j
  let maxPaths ← withDefault "maxPaths" ({} : Limits).maxPaths Json.count? r
  let maxIterations ← withDefault "maxIterations" ({} : Limits).maxIterations Json.count? r
  return { maxPaths, maxIterations }

/-- Writes bounds on the enumeration of routes. -/
def Limits.toJson (l : Limits) : Json := .object [
  ("maxPaths", ofNat l.maxPaths),
  ("maxIterations", ofNat l.maxIterations)]

/-! ### Routes and statistics -/

/-- Writes an option taken on a route. -/
def DecisionStep.toJson (s : DecisionStep) : Json := .object [
  ("nodeId", .text s.nodeId),
  ("optionIndex", ofNat s.optionIndex),
  ("optionValue", .text s.optionValue),
  ("shortLabel", .text s.shortLabel)]

/-- Writes how involved a route is. -/
def Complexity.toJson (c : Complexity) : Json := .object [
  ("structural", ofNat c.structural),
  ("length", ofNat c.length)]

/-- Writes a route. -/
def Route.toJson (r : Route) : Json := .object [
  ("nodeIds", ofList .text r.nodeIds),
  ("constraints", ofList RouteConstraint.toJson r.constraints),
  ("decisions", ofList DecisionStep.toJson r.decisions),
  ("decisionCount", ofNat r.decisionCount),
  ("checkpointCount", ofNat r.checkpointCount)]

/-- Writes counts of nodes. -/
def NodeCounts.toJson (n : NodeCounts) : Json := .object [
  ("instruction", ofNat n.instruction),
  ("decision", ofNat n.decision),
  ("checkpoint", ofNat n.checkpoint),
  ("milestone", ofNat n.milestone),
  ("embellishment", ofNat n.embellishment),
  ("terminal", ofNat n.terminal)]

/-- Writes statistics. -/
def Stats.toJson (s : Stats) : Json := .object [
  ("nodeCounts", s.nodeCounts.toJson),
  ("edgeCount", ofNat s.edgeCount),
  ("cyclomaticComplexity", .number (.integer s.cyclomaticComplexity)),
  ("pathCount", ofNat s.pathCount),
  ("minPathLength", ofNat s.minPathLength),
  ("maxPathLength", ofNat s.maxPathLength),
  ("minDecisions", ofNat s.minDecisions),
  ("maxDecisions", ofNat s.maxDecisions),
  ("minCheckpoints", ofNat s.minCheckpoints),
  ("maxCheckpoints", ofNat s.maxCheckpoints),
  ("recommendedIterations", ofNat s.recommendedIterations)]

/-- Writes the routes of a chart with its statistics. -/
def Analysis.toJson (a : Analysis) : Json := .object [
  ("paths", ofList Route.toJson a.routes),
  ("stats", a.stats.toJson),
  ("truncated", .bool a.truncated)]

end ProcedureChart
