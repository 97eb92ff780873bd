import ProcedureChart.Chart.Walk
import ProcedureChart.Generate.Example
import ProcedureChart.Generate.FixedPoint
import ProcedureChart.Generate.Plan
import ProcedureChart.Route.Describe

/-!
# Attempts

One attempt at an example of a route: values for the independent fields are drawn, and then the
candidate is judged, which takes no more draws. A candidate is accepted if its derived fields and
variables can be computed, if the validation and the generation constraints hold, and if its walk,
with the intended route as a hint, reaches a terminal. It is on target if the walk is the intended
route and the constraints of that route hold; otherwise it is an example of the route it takes.
-/

namespace ProcedureChart

/-- What comes of an attempt. -/
inductive Attempt where
  | onTarget (e : Example)
  /-- accepted, but on another route -/
  | offTarget (e : Example)
  | rejected (reason : Rejection)
  deriving DecidableEq

namespace Plan

/-- The context of a problem with its variables. -/
def context (p : Plan) (values computed : Scope) : Context where
  problem := values
  computed := computed
  userState := p.userState

/-- The values of a problem with its derived fields. -/
def derive? (p : Plan) (values : Scope) : Except Expr.EvalError Scope :=
  FixedPoint.resolve (fun f values => f.eval (p.context values .empty))
    p.chart.definition.derived.entries values

/-- The variables of a problem. -/
def compute? (p : Plan) (values : Scope) : Except Expr.EvalError Scope :=
  FixedPoint.resolve (fun f computed => f.eval (p.context values computed))
    p.chart.definition.computed.entries .empty

/-- The example of a problem that takes a route, as far as the route can be told from its nodes. It
is labelled by the target of that signature if there is one. -/
def exampleOf (p : Plan) (route : List String) (values : Scope) : Example :=
  let signature := signatureOf route
  match p.targetOf? signature with
  | some t => .ofRoute t.route values
  | none =>
    let steps := p.chart.stepsAlong route
    { values
      complexity := ⟨steps.length + p.chart.checkpointsAlong route, route.length⟩
      signature
      descriptor := descriptorOf steps }

/-- Judges the walk of a problem in its context. -/
def judgeWalk (p : Plan) (t : Target) (values : Scope) (ctx : Context) : Attempt :=
  match p.chart.walk ctx (some t.route.nodeIds) with
  | none => .rejected .walk
  | some route =>
    if route = t.route.nodeIds then
      if t.route.replays ctx then .onTarget (.ofRoute t.route values) else .rejected .replay
    else .offTarget (p.exampleOf route values)

/-- Judges a candidate by the values of its independent fields. -/
def judge (p : Plan) (t : Target) (drawn : Scope) : Attempt :=
  match p.derive? drawn with
  | .error _ => .rejected .derivation
  | .ok values =>
    match p.compute? values with
    | .error _ => .rejected .computation
    | .ok computed =>
      let d := p.chart.definition
      let ctx := p.context values computed
      if !d.problemInput.validation.all fun f => f.holds ctx then .rejected .validation
      else if !d.constraints.values.all fun f => f.holds ctx then .rejected .constraint
      else p.judgeWalk t values ctx

variable {σ : Type} [RandomSource σ]

/-- An attempt at an example of a route. -/
def attempt (p : Plan) (t : Target) (s : σ) : Attempt × σ :=
  match FieldPlan.drawAll p.config.preferredBias t.fields .empty s with
  | (none, s) => (.rejected .noValue, s)
  | (some drawn, s) => (p.judge t drawn, s)

end Plan

end ProcedureChart
