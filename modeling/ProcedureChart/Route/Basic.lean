import ProcedureChart.Chart.Definition

/-!
# Routes

A route is a way from the entry node to a terminal that visits no node twice, with the conditions
under which a problem takes it. Its signature tells it from other node sequences; its descriptor
names the options taken on it, and groups routes that look alike to a learner.
-/

namespace ProcedureChart

/-- A condition for taking a route: the outcome that a formula must have at a node. -/
structure RouteConstraint where
  nodeId : String
  formula : Formula
  required : Bool
  /-- the value of the option taken, if the formula is the answer to a decision -/
  optionValue : Option String
  mode : AnswerMode
  deriving DecidableEq

/-- Whether a value of the formula is the outcome required: the text of the option taken, where the
value selects by its text, and the required truth value otherwise. -/
def RouteConstraint.admits (k : RouteConstraint) (result : Value) : Bool :=
  match k.optionValue, k.mode.byText result with
  | some optionValue, true => result.display == optionValue
  | _, _ => result.truthy == k.required

/-- Whether a constraint holds in a context. A formula without a value satisfies none. -/
def RouteConstraint.satisfied (k : RouteConstraint) (ctx : Context) : Bool :=
  match k.formula.eval ctx with
  | .error _ => false
  | .ok result => k.admits result

theorem RouteConstraint.satisfied_iff {k : RouteConstraint} {ctx : Context} :
    k.satisfied ctx ↔ ∃ v, k.formula.eval ctx = .ok v ∧ k.admits v := by
  rw [satisfied]
  split
  · next error herror => simp [herror]
  · next v hv => simp [hv]

/-- An option taken on a route. -/
structure DecisionStep where
  nodeId : String
  optionIndex : Nat
  optionValue : String
  shortLabel : String
  deriving Repr, DecidableEq

/-- How involved a route is: decisions and checkpoints first, then nodes. -/
structure Complexity where
  structural : Nat
  length : Nat
  deriving Repr, DecidableEq

/-- Whether a route is no more involved than another. -/
def Complexity.le (a b : Complexity) : Bool :=
  a.structural < b.structural || a.structural == b.structural && a.length ≤ b.length

/-- A route, or the beginning of one. Its decisions are counted beside the list of them. -/
structure Route where
  nodeIds : List String := []
  constraints : List RouteConstraint := []
  decisions : List DecisionStep := []
  decisionCount : Nat := 0
  checkpointCount : Nat := 0
  decisionCount_eq : decisionCount = decisions.length := by rfl
  deriving DecidableEq

/-- The text that identifies a sequence of nodes. -/
def signatureOf (nodeIds : List String) : String := "→".intercalate nodeIds

/-- The text that describes options taken one after the other. -/
def descriptorOf (steps : List DecisionStep) : String :=
  if steps.isEmpty then "Default" else " / ".intercalate (steps.map DecisionStep.shortLabel)

namespace Route

/-- The signature of a route. -/
def signature (r : Route) : String := signatureOf r.nodeIds

/-- The descriptor of a route. -/
def descriptor (r : Route) : String := descriptorOf r.decisions

/-- How involved a route is. -/
def complexity (r : Route) : Complexity :=
  ⟨r.decisionCount + r.checkpointCount, r.nodeIds.length⟩

/-- The node a route ends at. -/
def terminal? (r : Route) : Option String := r.nodeIds.getLast?

/-- Whether all constraints of a route hold in a context. -/
def replays (r : Route) (ctx : Context) : Bool := r.constraints.all fun k => k.satisfied ctx

end Route

end ProcedureChart
