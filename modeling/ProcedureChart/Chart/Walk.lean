import ProcedureChart.Chart.Basic

/-!
# Walks

The walk of a problem through a chart. Skips and decisions with an answer are settled by evaluating
their formulas. A decision without one is the learner's choice: it follows a hint, which is a route,
if that leads on from the node, and takes the first option otherwise. A walk that comes to a node a
second time, has nowhere to go or meets a formula without a value is no route.

No node is visited twice, so a walk ends after at most as many steps as there are nodes.
-/

namespace ProcedureChart

/-- The place of the option that the value of an answer selects. -/
def Decision.select? (d : Decision) (mode : AnswerMode) (result : Value) : Option Nat :=
  if mode.byText result then d.options.findIdx? fun o => o.value == result.display
  else if result.truthy || d.options.length < 2 then some 0
  else some 1

/-- The target of a skip rule that applies. The outer option is empty if the condition has no
value. -/
def Skip.taken? (skip : Option Skip) (ctx : Context) : Option (Option String) :=
  match skip with
  | none => some none
  | some skip =>
    match skip.condition.eval ctx with
    | .error _ => none
    | .ok v => some (if v.truthy then some skip.target else none)

namespace Chart

/-- What follows the first occurrence of a node in a route. -/
def following? (route : List String) (id : String) : Option String :=
  match route.dropWhile fun other => other != id with
  | _ :: next :: _ => some next
  | _ => none

/-- The place of the option that a hint chooses at a node. -/
def hintedOption? (c : Chart) (id : String) (d : Decision) (hint : Option (List String)) :
    Option Nat := do
  let route ← hint
  let wanted ← following? route id
  let (_, index) ← c.optionTo? id d wanted
  return index

/-- The place of the option that is taken at a decision. -/
def chosenOption? (c : Chart) (id : String) (d : Decision) (ctx : Context)
    (hint : Option (List String)) : Option Nat :=
  if d.excludeFromExampleStructure then some 0
  else
    match d.correctAnswer with
    | some answer =>
      match answer.formula.eval ctx with
      | .error _ => none
      | .ok result => d.select? answer.mode result
    | none => some ((c.hintedOption? id d hint).getD 0)

/-- Where a decision leads. -/
def decisionSuccessor? (c : Chart) (id : String) (d : Decision) (ctx : Context)
    (hint : Option (List String)) : Option String :=
  match Skip.taken? d.skip? ctx with
  | none => none
  | some (some target) => some target
  | some none => do
    let index ← c.chosenOption? id d ctx hint
    let o ← d.options[index]?
    c.optionTarget? id index o

/-- Where a checkpoint leads. -/
def checkpointSuccessor? (c : Chart) (id : String) (n : Checkpoint) (ctx : Context) :
    Option String :=
  match Skip.taken? n.openSkip? ctx with
  | none => none
  | some (some target) => some target
  | some none => c.nextOf? id

/-- Where a node leads; a terminal leads nowhere. -/
def successor? (c : Chart) (id : String) (node : Node) (ctx : Context)
    (hint : Option (List String)) : Option String :=
  match node with
  | .terminal _ => none
  | .decision d => c.decisionSuccessor? id d ctx hint
  | .checkpoint n => c.checkpointSuccessor? id n ctx
  | .instruction _ | .milestone _ | .embellishment _ => c.nextOf? id

/-- The walk from a node on, in at most `steps` nodes, none of which was `seen`. -/
def walkFrom (c : Chart) (ctx : Context) (hint : Option (List String)) :
    (steps : Nat) → (seen : List String) → (id : String) → Option (List String)
  | 0, _, _ => none
  | steps + 1, seen, id =>
    if seen.contains id then none
    else
      match c.node? id with
      | none => none
      | some (.terminal _) => some [id]
      | some node =>
        match c.successor? id node ctx hint with
        | none => none
        | some next => (walkFrom c ctx hint steps (id :: seen) next).map (id :: ·)

/-- The route that a problem takes through a chart. -/
def walk (c : Chart) (ctx : Context) (hint : Option (List String)) : Option (List String) :=
  walkFrom c ctx hint c.definition.nodes.size [] c.entry

end Chart

end ProcedureChart
