/-!
# Diagnostics

What happened on the way to the examples of each route: how many candidates were made, how many took
the route, how many took another one, and why the others were rejected. Whether a route was hit, and
why not, is read off these counts.
-/

namespace ProcedureChart

/-- Why a candidate was rejected. -/
inductive Rejection where
  /-- some field has no value that passes the filters of the route -/
  | noValue
  | derivation
  | computation
  | validation
  | constraint
  /-- the walk does not reach a terminal -/
  | walk
  /-- the walk takes the route although a constraint of the route does not hold -/
  | replay
  deriving Repr, DecidableEq

namespace Rejection

/-- All reasons. Of equally frequent reasons the first one is the dominant one. -/
def all : List Rejection :=
  [noValue, derivation, computation, validation, constraint, walk, replay]

/-- The name of a reason. -/
def name : Rejection → String
  | noValue => "noValue" | derivation => "derivation" | computation => "variables"
  | validation => "validation" | constraint => "constraint" | walk => "walk" | replay => "replay"

/-- The reason of a name. -/
def ofName? (s : String) : Option Rejection := all.find? fun r => r.name == s

/-- What messages say about a reason. -/
def describe : Rejection → String
  | noValue => "no field value satisfies the route's constraints"
  | derivation => "derived fields could not be computed"
  | computation => "flowchart variables could not be computed"
  | validation => "candidates failed the problem validation"
  | constraint => "candidates violated a generation constraint"
  | walk => "the walkthrough could not reach a terminal"
  | replay => "route conditions did not hold on replay"

end Rejection

/-- How often candidates were rejected, by reason. -/
structure RejectionCounts where
  noValue : Nat := 0
  derivation : Nat := 0
  computation : Nat := 0
  validation : Nat := 0
  constraint : Nat := 0
  walk : Nat := 0
  replay : Nat := 0
  deriving Repr, DecidableEq

namespace RejectionCounts

/-- The count of a reason. -/
def get (n : RejectionCounts) : Rejection → Nat
  | .noValue => n.noValue
  | .derivation => n.derivation
  | .computation => n.computation
  | .validation => n.validation
  | .constraint => n.constraint
  | .walk => n.walk
  | .replay => n.replay

/-- The counts with one more rejection. -/
def record (n : RejectionCounts) : Rejection → RejectionCounts
  | .noValue => { n with noValue := n.noValue + 1 }
  | .derivation => { n with derivation := n.derivation + 1 }
  | .computation => { n with computation := n.computation + 1 }
  | .validation => { n with validation := n.validation + 1 }
  | .constraint => { n with constraint := n.constraint + 1 }
  | .walk => { n with walk := n.walk + 1 }
  | .replay => { n with replay := n.replay + 1 }

/-- The number of all rejections. -/
def total (n : RejectionCounts) : Nat :=
  n.noValue + n.derivation + n.computation + n.validation + n.constraint + n.walk + n.replay

/-- The more frequent of the best reason so far and another one; the former on a tie. -/
def better (n : RejectionCounts) (best : Option Rejection) (r : Rejection) : Option Rejection :=
  match best with
  | some b => if n.get r ≤ n.get b then some b else some r
  | none => some r

/-- The most frequent reason. -/
def dominant? (n : RejectionCounts) : Option Rejection :=
  (Rejection.all.filter fun r => 0 < n.get r).foldl n.better none

theorem get_record (n : RejectionCounts) (r other : Rejection) :
    (n.record r).get other = n.get other + if other = r then 1 else 0 := by
  cases r <;> cases other <;> rfl

end RejectionCounts

/-- Why no example of a route was made. -/
inductive MissReason where
  | noAttempts
  /-- the most frequent rejection, and how often of how many attempts it occurred -/
  | rejected (reason : Rejection) (count : Nat) (total : Nat)
  /-- all candidates were accepted, on other routes -/
  | offTarget (count : Nat)
  deriving Repr, DecidableEq

/-- The text of a reason. -/
def MissReason.message : MissReason → String
  | noAttempts => "no attempts were made"
  | rejected reason count total =>
    reason.describe ++ " (" ++ toString count ++ " of " ++ toString total ++ " attempts)"
  | offTarget count =>
    "all " ++ toString count ++ " accepted candidates took a different route"

/-- What came of the attempts at a route. -/
inductive RouteOutcome where
  | hit
  | miss (reason : MissReason)
  deriving Repr, DecidableEq

/-- The account of a route. -/
structure RouteReport where
  signature : String
  /-- the descriptor of the route -/
  label : String
  attempts : Nat := 0
  enrichmentAttempts : Nat := 0
  hits : Nat := 0
  /-- accepted candidates that took another route -/
  offTarget : Nat := 0
  rejections : RejectionCounts := {}
  deriving Repr, DecidableEq

namespace RouteReport

/-- Why a route without hits was missed. -/
def missReason (r : RouteReport) : MissReason :=
  let total := r.attempts + r.enrichmentAttempts
  if total = 0 then .noAttempts
  else
    match r.rejections.dominant? with
    | some reason => .rejected reason (r.rejections.get reason) total
    | none => .offTarget r.offTarget

/-- Whether a route was hit, and why not. -/
def outcome (r : RouteReport) : RouteOutcome := if 0 < r.hits then .hit else .miss r.missReason

/-- Whether a route was hit. -/
def isHit (r : RouteReport) : Bool := 0 < r.hits

end RouteReport

/-- The account of a generation run. -/
structure RunReport where
  /-- independent fields without preferred values -/
  missingPreferred : List String
  pathCount : Nat
  truncated : Bool
  recommendedIterations : Nat
  paths : List RouteReport := []
  /-- the number of examples selected -/
  selected : Nat := 0
  warnings : List String := []
  deriving Repr, DecidableEq

namespace RunReport

/-- Whether every independent field has preferred values. -/
def preferredValuesOk (r : RunReport) : Bool := r.missingPreferred.isEmpty

/-- The number of all attempts. -/
def totalAttempts (r : RunReport) : Nat :=
  r.paths.foldr (fun p n => p.attempts + p.enrichmentAttempts + n) 0

/-- The number of all accepted candidates. -/
def totalSuccesses (r : RunReport) : Nat :=
  r.paths.foldr (fun p n => p.hits + p.offTarget + n) 0

/-- The number of routes that were hit. -/
def hitCount (r : RunReport) : Nat := r.paths.countP RouteReport.isHit

/-- The accounts of the routes that were missed. -/
def misses (r : RunReport) : List RouteReport := r.paths.filter fun p => !p.isHit

end RunReport

end ProcedureChart
