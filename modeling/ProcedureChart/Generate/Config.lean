import ProcedureChart.Route.Enumerate

/-!
# Configuring generation

The budgets of a generation run, and the wishes of the user that are visible to formulas as state.
-/

namespace ProcedureChart

/-- Budgets of generation, and how values are drawn. -/
structure Config where
  /-- targeted attempts for each route -/
  attemptsPerPath : Nat := 300
  /-- targeted attempts for a route end after so many hits -/
  targetHitsPerPath : Nat := 5
  /-- how many examples of each route enrichment aims at -/
  enrichmentTarget : Nat := 10
  /-- enrichment of a route ends after so many failures in a row -/
  maxConsecutiveFailures : Nat := 100
  /-- the probability of drawing a preferred value -/
  preferredBias : Float := 0.8
  /-- integer ranges of this size are not spelled out -/
  domainCap : Nat := 2000
  limits : Limits := {}
  deriving Repr, DecidableEq

/-- The wishes of the user. -/
structure UserConstraints where
  positiveAnswersOnly : Bool := false
  maxValue : Option Float := none
  extra : Scope := .empty
  deriving DecidableEq

/-- The wishes of the user as state. The two named wishes win over extra ones of the same name. -/
def UserConstraints.toUserState (u : UserConstraints) : Scope :=
  (u.extra.insert "positiveAnswersOnly" (.bool u.positiveAnswersOnly)).insert "maxValue"
    (match u.maxValue with
      | some x => .number x
      | none => .null)

end ProcedureChart
