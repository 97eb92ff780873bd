import ProcedureChart.Chart.Definition
import ProcedureChart.Chart.Diagram
import ProcedureChart.Json.Parser
import ProcedureChart.Json.Value

/-!
# Reading charts from JSON

The definition format: records with field names in camel case, tables for what is named by the
author, a `type` field that tells the kind of a node. Expressions are texts. `Definition.parse?` and
`Diagram.parse?` read a whole JSON text.
-/

namespace ProcedureChart

open Json (required optional withDefault listOf? tableOf? record? alternative?)

/-- The formula of a text. -/
def Formula.ofJson? (j : Json) : Option Formula := j.text?.map Formula.ofSource

namespace FieldKind

/-- The name of a kind of field. -/
def name : FieldKind → String
  | integer => "integer" | number => "number" | decimal => "decimal"
  | mixedNumber => "mixedNumber" | choice => "choice" | text => "text"

/-- All kinds of fields. -/
def all : List FieldKind := [integer, number, decimal, mixedNumber, choice, text]

/-- The kind of a name. -/
def ofJson? (j : Json) : Option FieldKind := do
  let s ← alternative? j
  all.find? fun kind => kind.name == s

end FieldKind

/-- Reads an input field. -/
def InputField.ofJson? (j : Json) : Option InputField := do
  let r ← record? ["name", "type", "label", "min", "max", "options"] j
  let name ← required "name" Json.text? r
  let kind ← withDefault "type" .number FieldKind.ofJson? r
  let label ← optional "label" Json.text? r
  let min ← optional "min" Json.float? r
  let max ← optional "max" Json.float? r
  let options ← withDefault "options" [] (listOf? Value.ofJson?) r
  return { name, kind, label, min, max, options }

/-- Reads a sample problem. -/
def SampleProblem.ofJson? (j : Json) : Option SampleProblem := do
  let r ← record? ["name", "values"] j
  let name ← optional "name" Json.text? r
  let values ← required "values" Scope.ofJson? r
  return { name, values }

/-- Reads the form of a problem. -/
def ProblemInput.ofJson? (j : Json) : Option ProblemInput := do
  let r ← record? ["schema", "fields", "validation", "examples"] j
  let schema ← required "schema" Json.text? r
  let fields ← required "fields" (listOf? InputField.ofJson?) r
  let validation ← optional "validation" Formula.ofJson? r
  let examples ← withDefault "examples" [] (listOf? SampleProblem.ofJson?) r
  return { schema, fields, validation, examples }

/-- Reads generation hints. -/
def GenerationHints.ofJson? (j : Json) : Option GenerationHints := do
  let r ← record? ["target", "derived", "preferred"] j
  let target ← optional "target" Json.text? r
  let derived ← withDefault "derived" .empty (tableOf? Formula.ofJson?) r
  let preferred ← withDefault "preferred" .empty (tableOf? (listOf? Value.ofJson?)) r
  return { target, derived, preferred }

/-- Reads display templates. -/
def DisplayTemplates.ofJson? (j : Json) : Option DisplayTemplates := do
  let r ← record? ["problem", "answer"] j
  let problem ← optional "problem" Json.text? r
  let answer ← optional "answer" Json.text? r
  return { problem, answer }

/-- Reads a change of the displayed problem. -/
def WorkingProblem.ofJson? (j : Json) : Option WorkingProblem := do
  let r ← record? ["result", "label"] j
  let result ← required "result" Json.text? r
  let label ← optional "label" Json.text? r
  return { result, label }

/-! ### Nodes -/

/-- Reads an instruction. -/
def Instruction.ofJson? (j : Json) : Option Instruction := do
  let r ← record? ["next", "content", "workingProblem"] j
  let next ← optional "next" Json.text? r
  let content ← optional "content" Json.text? r
  let workingProblem ← optional "workingProblem" WorkingProblem.ofJson? r
  return { next, content, workingProblem }

/-- Reads an option of a decision. -/
def DecisionOption.ofJson? (j : Json) : Option DecisionOption := do
  let r ← record? ["label", "value", "next", "pathLabel"] j
  let label ← required "label" Json.text? r
  let value ← required "value" Json.text? r
  let next ← optional "next" Json.text? r
  let pathLabel ← optional "pathLabel" Json.text? r
  return { label, value, next, pathLabel }

/-- Reads an answer in a pinned mode: a record with the formula under the mode's name. -/
def Answer.pinned? (mode : AnswerMode) (name : String) (j : Json) : Option Answer := do
  let fields ← j.object?
  let r ← record? [name] (.object fields)
  let formula ← required name Formula.ofJson? r
  return ⟨mode, formula⟩

/-- Reads an answer: a plain text leaves its mode to be inferred, a record pins it. -/
def Answer.ofJson? (j : Json) : Option Answer :=
  match j with
  | .text s => some ⟨.inferred, .ofSource s⟩
  | j => (Answer.pinned? .boolean "boolean" j).or (Answer.pinned? .value "value" j)

/-- Reads a decision. -/
def Decision.ofJson? (j : Json) : Option Decision := do
  let r ← record? ["options", "correctAnswer", "skipIf", "skipTo", "excludeFromExampleStructure",
    "content"] j
  let options ← required "options" (listOf? DecisionOption.ofJson?) r
  let correctAnswer ← optional "correctAnswer" Answer.ofJson? r
  let skipIf ← optional "skipIf" Formula.ofJson? r
  let skipTo ← optional "skipTo" Json.text? r
  let excludeFromExampleStructure ← withDefault "excludeFromExampleStructure" false Json.bool? r
  let content ← optional "content" Json.text? r
  return { options, correctAnswer, skipIf, skipTo, excludeFromExampleStructure, content }

/-- Reads what a checkpoint accepts: one formula, or a list of them. -/
def Expected.ofJson? (j : Json) : Option Expected :=
  match j with
  | .text s => some (.single (.ofSource s))
  | j => (listOf? Formula.ofJson? j).map .anyOf

/-- Reads a checkpoint. -/
def Checkpoint.ofJson? (j : Json) : Option Checkpoint := do
  let r ← record? ["prompt", "expected", "tolerance", "next", "skipIf", "skipTo",
    "excludeSkipFromPaths"] j
  let prompt ← required "prompt" Json.text? r
  let expected ← required "expected" Expected.ofJson? r
  let tolerance ← optional "tolerance" Json.float? r
  let next ← optional "next" Json.text? r
  let skipIf ← optional "skipIf" Formula.ofJson? r
  let skipTo ← optional "skipTo" Json.text? r
  let excludeSkipFromPaths ← withDefault "excludeSkipFromPaths" false Json.bool? r
  return { prompt, expected, tolerance, next, skipIf, skipTo, excludeSkipFromPaths }

/-- Reads a node that is merely passed. -/
def PassThrough.ofJson? (j : Json) : Option PassThrough := do
  let r ← record? ["next", "content"] j
  let next ← optional "next" Json.text? r
  let content ← optional "content" Json.text? r
  return { next, content }

/-- Reads a terminal. -/
def Terminal.ofJson? (j : Json) : Option Terminal := do
  let r ← record? ["celebration", "content"] j
  let celebration ← withDefault "celebration" false Json.bool? r
  let content ← optional "content" Json.text? r
  return { celebration, content }

/-- The kind of a node and the record of its fields. As a list, a node begins with its kind. -/
def Node.tagged? : Json → Option (String × Json)
  | .object fields => do
    let r ← record? ["type"] (.object fields)
    let kind ← required "type" Json.text? r
    return (kind, .object fields)
  | .list (.text kind :: values) => some (kind, .list values)
  | _ => none

/-- Reads a node. -/
def Node.ofJson? (j : Json) : Option Node := do
  let (kind, j) ← Node.tagged? j
  match kind with
  | "instruction" => (Instruction.ofJson? j).map .instruction
  | "decision" => (Decision.ofJson? j).map .decision
  | "checkpoint" => (Checkpoint.ofJson? j).map .checkpoint
  | "milestone" => (PassThrough.ofJson? j).map .milestone
  | "embellishment" => (PassThrough.ofJson? j).map .embellishment
  | "terminal" => (Terminal.ofJson? j).map .terminal
  | _ => none

/-! ### Definitions and diagrams -/

/-- Reads the initial formula of a variable. -/
def Formula.ofVariable? (j : Json) : Option Formula := do
  let r ← record? ["init"] j
  required "init" Formula.ofJson? r

/-- Reads a definition. -/
def Definition.ofJson? (j : Json) : Option Definition := do
  let r ← record? ["id", "title", "problemInput", "entryNode", "nodes", "edges", "variables",
    "generation", "constraints", "display"] j
  let id ← required "id" Json.text? r
  let title ← required "title" Json.text? r
  let problemInput ← required "problemInput" ProblemInput.ofJson? r
  let entryNode ← required "entryNode" Json.text? r
  let nodes ← required "nodes" (tableOf? Node.ofJson?) r
  let edges ← withDefault "edges" .empty (tableOf? (listOf? Json.text?)) r
  let computed ← withDefault "variables" .empty (tableOf? Formula.ofVariable?) r
  let generation ← optional "generation" GenerationHints.ofJson? r
  let constraints ← withDefault "constraints" .empty (tableOf? Formula.ofJson?) r
  let display ← optional "display" DisplayTemplates.ofJson? r
  return { id, title, problemInput, entryNode, nodes, edges, computed, generation, constraints,
           display }

/-- Reads an edge of a diagram. -/
def DiagramEdge.ofJson? (j : Json) : Option DiagramEdge := do
  let r ← record? ["from", "to", "label"] j
  let source ← required "from" Json.text? r
  let target ← required "to" Json.text? r
  let label ← optional "label" Json.text? r
  return { source, target, label }

/-- Reads a phase of a diagram. -/
def Phase.ofJson? (j : Json) : Option Phase := do
  let r ← record? ["id", "title", "nodeIds"] j
  let id ← required "id" Json.text? r
  let title ← required "title" Json.text? r
  let nodeIds ← withDefault "nodeIds" [] (listOf? Json.text?) r
  return { id, title, nodeIds }

/-- Reads a diagram. -/
def Diagram.ofJson? (j : Json) : Option Diagram := do
  let r ← record? ["nodes", "edges", "phases"] j
  let nodes ← withDefault "nodes" .empty (tableOf? Json.text?) r
  let edges ← withDefault "edges" [] (listOf? DiagramEdge.ofJson?) r
  let phases ← withDefault "phases" [] (listOf? Phase.ofJson?) r
  return { nodes, edges, phases }

/-- The definition that a JSON text holds. -/
def Definition.parse? (text : String) : Option Definition := (Json.parse text).bind Definition.ofJson?

/-- The diagram that a JSON text holds. -/
def Diagram.parse? (text : String) : Option Diagram := (Json.parse text).bind Diagram.ofJson?

end ProcedureChart
