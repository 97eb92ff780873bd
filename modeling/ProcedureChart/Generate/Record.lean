import ProcedureChart.Generate.Config
import ProcedureChart.Generate.Diagnostics
import ProcedureChart.Generate.Example
import ProcedureChart.Route.Record

/-!
# Generation records

The budgets of generation and the wishes of the user as JSON records that are read; examples and the
account of a run as records that are written.
-/

namespace ProcedureChart

open Json (optional withDefault record? ofList ofNat ofFloat)

/-! ### Configuration -/

/-- Reads budgets. -/
def Config.ofJson? (j : Json) : Option Config := do
  let r ← record? ["attemptsPerPath", "targetHitsPerPath", "enrichmentTarget",
    "maxConsecutiveFailures", "preferredBias", "domainCap", "limits"] j
  let default : Config := {}
  let count (name : String) (value : Nat) := withDefault name value Json.count? r
  let attemptsPerPath ← count "attemptsPerPath" default.attemptsPerPath
  let targetHitsPerPath ← count "targetHitsPerPath" default.targetHitsPerPath
  let enrichmentTarget ← count "enrichmentTarget" default.enrichmentTarget
  let maxConsecutiveFailures ← count "maxConsecutiveFailures" default.maxConsecutiveFailures
  let preferredBias ← withDefault "preferredBias" default.preferredBias Json.float? r
  let domainCap ← count "domainCap" default.domainCap
  let limits ← withDefault "limits" default.limits Limits.ofJson? r
  return { attemptsPerPath, targetHitsPerPath, enrichmentTarget, maxConsecutiveFailures,
           preferredBias, domainCap, limits }

/-- Writes budgets. -/
def Config.toJson (c : Config) : Json := .object [
  ("attemptsPerPath", ofNat c.attemptsPerPath),
  ("targetHitsPerPath", ofNat c.targetHitsPerPath),
  ("enrichmentTarget", ofNat c.enrichmentTarget),
  ("maxConsecutiveFailures", ofNat c.maxConsecutiveFailures),
  ("preferredBias", ofFloat c.preferredBias),
  ("domainCap", ofNat c.domainCap),
  ("limits", c.limits.toJson)]

/-- Reads the wishes of the user. -/
def UserConstraints.ofJson? (j : Json) : Option UserConstraints := do
  let r ← record? ["positiveAnswersOnly", "maxValue", "extra"] j
  let positiveAnswersOnly ← withDefault "positiveAnswersOnly" false Json.bool? r
  let maxValue ← optional "maxValue" Json.float? r
  let extra ← withDefault "extra" .empty Scope.ofJson? r
  return { positiveAnswersOnly, maxValue, extra }

/-! ### Examples and accounts -/

/-- Writes an example. -/
def Example.toJson (e : Example) : Json := .object [
  ("values", Scope.toJson e.values),
  ("complexity", e.complexity.toJson),
  ("pathSignature", .text e.signature),
  ("pathDescriptor", .text e.descriptor)]

/-- Reads the name of a reason for rejection. -/
def Rejection.ofJson? (j : Json) : Option Rejection := (Json.alternative? j).bind Rejection.ofName?

/-- Writes counts of rejections. -/
def RejectionCounts.toJson (n : RejectionCounts) : Json :=
  .object (Rejection.all.map fun r => (r.name, ofNat (n.get r)))

/-- Writes whether a route was hit. -/
def RouteOutcome.toJson : RouteOutcome → Json
  | hit => .object [("status", .text "hit")]
  | miss reason => .object [("status", .text "miss"), ("reason", .text reason.message)]

/-- Writes the account of a route. -/
def RouteReport.toJson (r : RouteReport) : Json := .object [
  ("signature", .text r.signature),
  ("label", .text r.label),
  ("attempts", ofNat r.attempts),
  ("enrichmentAttempts", ofNat r.enrichmentAttempts),
  ("hits", ofNat r.hits),
  ("offTarget", ofNat r.offTarget),
  ("rejections", r.rejections.toJson),
  ("outcome", r.outcome.toJson)]

/-- Writes the account of a run. -/
def RunReport.toJson (r : RunReport) : Json := .object [
  ("preferredValuesOk", .bool r.preferredValuesOk),
  ("missingPreferred", ofList .text r.missingPreferred),
  ("pathCount", ofNat r.pathCount),
  ("truncated", .bool r.truncated),
  ("recommendedIterations", ofNat r.recommendedIterations),
  ("paths", ofList RouteReport.toJson r.paths),
  ("totalAttempts", ofNat r.totalAttempts),
  ("totalSuccesses", ofNat r.totalSuccesses),
  ("selected", ofNat r.selected),
  ("warnings", ofList .text r.warnings)]

end ProcedureChart
