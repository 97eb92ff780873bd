import ProcedureChart.Chart.Definition
import ProcedureChart.Chart.Diagram
import ProcedureChart.Chart.Reading

/-!
# Writing charts as JSON

The definition format with every field present: what is absent is null, what has a default is
written out, and each node and field carries its `type`.
-/

namespace ProcedureChart

open Json (ofList ofTable ofOption ofFloat)

/-- The text of a formula. -/
def Formula.toJson (f : Formula) : Json := .text f.source

/-- Writes an input field. -/
def InputField.toJson (f : InputField) : Json := .object [
  ("name", .text f.name),
  ("type", .text f.kind.name),
  ("label", ofOption .text f.label),
  ("min", ofOption ofFloat f.min),
  ("max", ofOption ofFloat f.max),
  ("options", ofList Value.toJson f.options)]

/-- Writes a sample problem. -/
def SampleProblem.toJson (p : SampleProblem) : Json := .object [
  ("name", ofOption .text p.name),
  ("values", Scope.toJson p.values)]

/-- Writes the form of a problem. -/
def ProblemInput.toJson (p : ProblemInput) : Json := .object [
  ("schema", .text p.schema),
  ("fields", ofList InputField.toJson p.fields),
  ("validation", ofOption Formula.toJson p.validation),
  ("examples", ofList SampleProblem.toJson p.examples)]

/-- Writes generation hints. -/
def GenerationHints.toJson (h : GenerationHints) : Json := .object [
  ("target", ofOption .text h.target),
  ("derived", ofTable Formula.toJson h.derived),
  ("preferred", ofTable (ofList Value.toJson) h.preferred)]

/-- Writes display templates. -/
def DisplayTemplates.toJson (t : DisplayTemplates) : Json := .object [
  ("problem", ofOption .text t.problem),
  ("answer", ofOption .text t.answer)]

/-- Writes a change of the displayed problem. -/
def WorkingProblem.toJson (w : WorkingProblem) : Json := .object [
  ("result", .text w.result),
  ("label", ofOption .text w.label)]

/-! ### Nodes -/

/-- Writes an option of a decision. -/
def DecisionOption.toJson (o : DecisionOption) : Json := .object [
  ("label", .text o.label),
  ("value", .text o.value),
  ("next", ofOption .text o.next),
  ("pathLabel", ofOption .text o.pathLabel)]

/-- Writes an answer in the form that its mode is read from. -/
def Answer.toJson (a : Answer) : Json :=
  match a.mode with
  | .inferred => a.formula.toJson
  | .boolean => .object [("boolean", a.formula.toJson)]
  | .value => .object [("value", a.formula.toJson)]

/-- Writes what a checkpoint accepts. -/
def Expected.toJson : Expected → Json
  | single f => f.toJson
  | anyOf fs => ofList Formula.toJson fs

/-- Writes a node with its kind in front. -/
def Node.toJson : Node → Json
  | instruction n => .object [
    ("type", .text "instruction"),
    ("next", ofOption .text n.next),
    ("content", ofOption .text n.content),
    ("workingProblem", ofOption WorkingProblem.toJson n.workingProblem)]
  | decision n => .object [
    ("type", .text "decision"),
    ("options", ofList DecisionOption.toJson n.options),
    ("correctAnswer", ofOption Answer.toJson n.correctAnswer),
    ("skipIf", ofOption Formula.toJson n.skipIf),
    ("skipTo", ofOption .text n.skipTo),
    ("excludeFromExampleStructure", .bool n.excludeFromExampleStructure),
    ("content", ofOption .text n.content)]
  | checkpoint n => .object [
    ("type", .text "checkpoint"),
    ("prompt", .text n.prompt),
    ("expected", n.expected.toJson),
    ("tolerance", ofOption ofFloat n.tolerance),
    ("next", ofOption .text n.next),
    ("skipIf", ofOption Formula.toJson n.skipIf),
    ("skipTo", ofOption .text n.skipTo),
    ("excludeSkipFromPaths", .bool n.excludeSkipFromPaths)]
  | milestone n => .object [
    ("type", .text "milestone"),
    ("next", ofOption .text n.next),
    ("content", ofOption .text n.content)]
  | embellishment n => .object [
    ("type", .text "embellishment"),
    ("next", ofOption .text n.next),
    ("content", ofOption .text n.content)]
  | terminal n => .object [
    ("type", .text "terminal"),
    ("celebration", .bool n.celebration),
    ("content", ofOption .text n.content)]

/-! ### Definitions and diagrams -/

/-- Writes the initial formula of a variable. -/
def Formula.variableToJson (f : Formula) : Json := .object [("init", f.toJson)]

/-- Writes a definition. -/
def Definition.toJson (d : Definition) : Json := .object [
  ("id", .text d.id),
  ("title", .text d.title),
  ("problemInput", d.problemInput.toJson),
  ("entryNode", .text d.entryNode),
  ("nodes", ofTable Node.toJson d.nodes),
  ("edges", ofTable (ofList .text) d.edges),
  ("variables", ofTable Formula.variableToJson d.computed),
  ("generation", ofOption GenerationHints.toJson d.generation),
  ("constraints", ofTable Formula.toJson d.constraints),
  ("display", ofOption DisplayTemplates.toJson d.display)]

/-- Writes an edge of a diagram. -/
def DiagramEdge.toJson (e : DiagramEdge) : Json := .object [
  ("from", .text e.source),
  ("to", .text e.target),
  ("label", ofOption .text e.label)]

/-- Writes a phase of a diagram. -/
def Phase.toJson (p : Phase) : Json := .object [
  ("id", .text p.id),
  ("title", .text p.title),
  ("nodeIds", ofList .text p.nodeIds)]

/-- Writes a diagram. -/
def Diagram.toJson (d : Diagram) : Json := .object [
  ("nodes", ofTable .text d.nodes),
  ("edges", ofList DiagramEdge.toJson d.edges),
  ("phases", ofList Phase.toJson d.phases)]

end ProcedureChart
