import ProcedureChart.Generate.Attempt

/-!
# Raw generation

The two phases that fill a pool of examples for some routes. The targeted phase attempts each route
until it has a few hits. The enrichment phase then attempts the routes that have too few examples in
the pool, where examples that other routes' attempts have led to count as well; it gives a route up
after too many failures in a row.

Both phases end: the targeted one by its budget of attempts; in enrichment, each attempt either adds
an example of the route or brings the giving up nearer.
-/

namespace ProcedureChart

/-- A pool of examples, last one first, and the account of the route at work. -/
structure Progress where
  pool : List Example
  report : RouteReport

namespace Progress

/-- Counts what came of an attempt and keeps its example. -/
def take (p : Progress) : Attempt → Progress
  | .onTarget e => ⟨e :: p.pool, { p.report with hits := p.report.hits + 1 }⟩
  | .offTarget e => ⟨e :: p.pool, { p.report with offTarget := p.report.offTarget + 1 }⟩
  | .rejected reason =>
    ⟨p.pool, { p.report with rejections := p.report.rejections.record reason }⟩

/-- Counts an attempt of the targeted phase. -/
def countAttempt (p : Progress) : Progress :=
  { p with report.attempts := p.report.attempts + 1 }

/-- Counts an attempt of the enrichment phase. -/
def countEnrichment (p : Progress) : Progress :=
  { p with report.enrichmentAttempts := p.report.enrichmentAttempts + 1 }

end Progress

namespace Plan

variable {σ : Type} [RandomSource σ]

/-- Attempts a route with so many attempts left, until it has its hits. -/
def target (plan : Plan) (t : Target) : (left : Nat) → Progress → σ → Progress × σ
  | 0, p, s => (p, s)
  | left + 1, p, s =>
    if plan.config.targetHitsPerPath ≤ p.report.hits then (p, s)
    else
      let (outcome, s) := plan.attempt t s
      target plan t left (p.countAttempt.take outcome) s

/-- Attempts a route that has `count` examples in the pool, behind `failures` failures in a row,
until it has enough or there are too many of them. -/
def enrich (plan : Plan) (t : Target) (count failures : Nat) (p : Progress) (s : σ) :
    Progress × σ :=
  if _h : count < plan.config.enrichmentTarget ∧ failures < plan.config.maxConsecutiveFailures then
    let (outcome, s) := plan.attempt t s
    let p := p.countEnrichment.take outcome
    match outcome with
    | .onTarget _ => enrich plan t (count + 1) 0 p s
    | .offTarget e =>
      if e.signature = t.signature then enrich plan t (count + 1) (failures + 1) p s
      else enrich plan t count (failures + 1) p s
    | .rejected _ => enrich plan t count (failures + 1) p s
  else (p, s)
termination_by (plan.config.enrichmentTarget - count, plan.config.maxConsecutiveFailures - failures)

/-- The targeted phase over some routes, with the account of each. -/
def targetAll (plan : Plan) : List Target → (pool : List Example) → σ →
    (List RouteReport × List Example) × σ
  | [], pool, s => (([], pool), s)
  | t :: rest, pool, s =>
    let (p, s) := plan.target t plan.config.attemptsPerPath
      ⟨pool, { signature := t.signature, label := t.route.descriptor }⟩ s
    let ((reports, pool), s) := targetAll plan rest p.pool s
    ((p.report :: reports, pool), s)

/-- The number of examples of a route in a pool. -/
def countOf (signature : String) (pool : List Example) : Nat :=
  pool.countP fun e => e.signature == signature

/-- The enrichment phase over some routes, continuing their accounts. -/
def enrichAll (plan : Plan) : List (Target × RouteReport) → (pool : List Example) → σ →
    (List RouteReport × List Example) × σ
  | [], pool, s => (([], pool), s)
  | (t, report) :: rest, pool, s =>
    let (p, s) := plan.enrich t (countOf t.signature pool) 0 ⟨pool, report⟩ s
    let ((reports, pool), s) := enrichAll plan rest p.pool s
    ((p.report :: reports, pool), s)

/-- Both phases over the routes at some places among the targets; places that are out of range are
passed over. The result is the pool, in the order in which its examples were made, and the account
of each route. -/
def generateRaw (plan : Plan) (indices : List Nat) (s : σ) :
    (List Example × List RouteReport) × σ :=
  let targets := indices.filterMap fun i => plan.targets[i]?
  let ((reports, pool), s) := plan.targetAll targets [] s
  let ((reports, pool), s) := plan.enrichAll (targets.zip reports) pool s
  ((pool.reverse, reports), s)

/-- The first example on target in so many attempts at a route. -/
def firstOnTarget (plan : Plan) (t : Target) : (left : Nat) → σ → Option Example × σ
  | 0, s => (none, s)
  | left + 1, s =>
    match plan.attempt t s with
    | (.onTarget e, s) => (some e, s)
    | (_, s) => firstOnTarget plan t left s

/-- An example on target for a route of a plan; none if some field has no preferred values. -/
def exampleFor (plan : Plan) (t : Target) (s : σ) : Option Example × σ :=
  if plan.missingPreferred.isEmpty then plan.firstOnTarget t plan.config.attemptsPerPath s
  else (none, s)

/-- An example on target for the route at a place among the targets. -/
def exampleAt (plan : Plan) (index : Nat) (s : σ) : Option Example × σ :=
  match plan.targets[index]? with
  | none => (none, s)
  | some t => plan.exampleFor t s

end Plan

end ProcedureChart
