import ProcedureChart.Route.Branch

/-!
# Describing node sequences

The decisions and checkpoints on a sequence of nodes, read off the chart alone. For a route that was
enumerated this gives what the enumeration recorded; it also serves for sequences that were not.
-/

namespace ProcedureChart.Chart

/-- The neighbouring nodes of a sequence. -/
def hops (route : List String) : List (String × String) := route.zip route.tail

/-- The option taken from a node to the next one, if the node is a decision that counts. -/
def stepBetween? (c : Chart) (id next : String) : Option DecisionStep :=
  match c.node? id with
  | some (.decision d) =>
    if d.excludeFromExampleStructure then none
    else (c.optionTo? id d next).map fun (o, index) => ⟨id, index, o.value, o.shortLabel⟩
  | _ => none

/-- The options taken on a sequence of nodes. -/
def stepsAlong (c : Chart) (route : List String) : List DecisionStep :=
  (hops route).filterMap fun (id, next) => c.stepBetween? id next

/-- Whether a hop passes a checkpoint without skipping it. -/
def passesCheckpoint (c : Chart) (id next : String) : Bool :=
  match c.node? id with
  | some (.checkpoint _) => c.nextOf? id == some next
  | _ => false

/-- The number of checkpoints passed on a sequence of nodes. -/
def checkpointsAlong (c : Chart) (route : List String) : Nat :=
  (hops route).countP fun (id, next) => c.passesCheckpoint id next

/-- The descriptor of a sequence of nodes. -/
def describe (c : Chart) (route : List String) : String := descriptorOf (c.stepsAlong route)

end ProcedureChart.Chart
