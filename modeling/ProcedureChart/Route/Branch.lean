import ProcedureChart.Chart.Basic
import ProcedureChart.Route.Basic

/-!
# Branches

The ways on from a node, and what each of them adds to a route. The skip of a node comes first, then
the options of a decision in their order. A decision that is excluded from the structure of examples
has its first option only, which adds no step to the route; a checkpoint counts unless it is
skipped.
-/

namespace ProcedureChart

/-- A way on from a node. -/
structure Branch where
  target : String
  /-- the conditions under which it is taken -/
  constraints : List RouteConstraint := []
  /-- the step it is, if it is the option of a decision -/
  step : Option DecisionStep := none
  /-- whether it passes a checkpoint -/
  checkpoint : Bool := false
  deriving DecidableEq

namespace Branch

/-- The condition that a skip applies, or does not. -/
def skipConstraint (id : String) (skip : Skip) (applies : Bool) : RouteConstraint where
  nodeId := id
  formula := skip.condition
  required := applies
  optionValue := none
  mode := .boolean

/-- The branch of a skip. -/
def skipping (id : String) (skip : Skip) : Branch where
  target := skip.target
  constraints := [skipConstraint id skip true]

/-- The condition that there is no skip, or that it does not apply. -/
def notSkipping (id : String) (skip : Option Skip) : List RouteConstraint :=
  (skip.map fun skip => skipConstraint id skip false).toList

/-- The condition that the answer to a decision selects an option. -/
def answerConstraint (id : String) (answer : Answer) (index : Nat) (o : DecisionOption) :
    RouteConstraint where
  nodeId := id
  formula := answer.formula
  required := index == 0
  optionValue := some o.value
  mode := answer.mode

/-- The branch of an option that leads to a node. -/
def choosing (id : String) (d : Decision) (index : Nat) (o : DecisionOption) (target : String) :
    Branch where
  target := target
  constraints := notSkipping id d.skip?
    ++ (d.correctAnswer.map fun answer => answerConstraint id answer index o).toList
  step := some ⟨id, index, o.value, o.shortLabel⟩

end Branch

namespace Chart

/-- The branches of the options of a decision. -/
def optionBranches (c : Chart) (id : String) (d : Decision) : List Branch :=
  if d.excludeFromExampleStructure then
    match d.options.head? with
    | none => []
    | some o =>
      ((c.optionTarget? id 0 o).map fun target =>
        { target, constraints := Branch.notSkipping id d.skip? }).toList
  else
    d.options.zipIdx.filterMap fun (o, index) =>
      (c.optionTarget? id index o).map (Branch.choosing id d index o)

/-- The first option of an excluded decision has a branch, if it leads somewhere. -/
theorem first_mem_optionBranches {c : Chart} {id target : String} {d : Decision}
    {o : DecisionOption} (hexcluded : d.excludeFromExampleStructure) (ho : d.options[0]? = some o)
    (htarget : c.optionTarget? id 0 o = some target) :
    { target, constraints := Branch.notSkipping id d.skip? } ∈ c.optionBranches id d := by
  rw [optionBranches, if_pos hexcluded, List.head?_eq_getElem?, ho]
  simp only [htarget, Option.map_some, Option.mem_toList]

/-- Each option of any other decision has a branch, if it leads somewhere. -/
theorem choosing_mem_optionBranches {c : Chart} {id target : String} {d : Decision} {index : Nat}
    {o : DecisionOption} (hincluded : ¬d.excludeFromExampleStructure)
    (ho : d.options[index]? = some o) (htarget : c.optionTarget? id index o = some target) :
    Branch.choosing id d index o target ∈ c.optionBranches id d := by
  rw [optionBranches, if_neg hincluded]
  refine List.mem_filterMap.2 ⟨(o, index), List.mem_zipIdx_iff_getElem?.2 ho, ?_⟩
  simp only [htarget, Option.map_some]

/-- The ways on from a node. -/
def branches (c : Chart) (id : String) : Node → List Branch
  | .terminal _ => []
  | .decision d => (d.skip?.map (Branch.skipping id)).toList ++ c.optionBranches id d
  | .checkpoint n =>
    (n.openSkip?.map (Branch.skipping id)).toList
      ++ ((c.nextOf? id).map fun target =>
        { target, constraints := Branch.notSkipping id n.openSkip?, checkpoint := true }).toList
  | .instruction _ | .milestone _ | .embellishment _ =>
    ((c.nextOf? id).map fun target => { target }).toList

end Chart

namespace Route

/-- A route with a node behind it. -/
def visit (r : Route) (id : String) : Route := { r with nodeIds := r.nodeIds ++ [id] }

/-- A route with what a branch adds to it. -/
def follow (r : Route) (b : Branch) : Route :=
  { r with
    constraints := r.constraints ++ b.constraints
    decisions := r.decisions ++ b.step.toList
    decisionCount := r.decisionCount + if b.step.isSome then 1 else 0
    checkpointCount := r.checkpointCount + if b.checkpoint then 1 else 0
    decisionCount_eq := by
      rw [r.decisionCount_eq, List.length_append]
      cases b.step <;> rfl }

end Route

end ProcedureChart
