import ProcedureChart.Expr.Formula

/-!
# Chart definitions

The declarative form of a procedure chart, as an author writes it. A chart takes a problem, which is
a set of input fields, through a graph of nodes from an entry node to a terminal. Decisions and
checkpoints may have a skip rule; a decision may have an answer that tells which option is right for
a problem. What is left open here, the targets of options and the successors of nodes, is settled
when the definition is joined with a diagram.
-/

namespace ProcedureChart

/-! ### The problem -/

/-- What kind of value an input field takes. -/
inductive FieldKind where
  | integer | number | decimal | mixedNumber | choice | text
  deriving Repr, DecidableEq

/-- An input field of the problem. -/
structure InputField where
  name : String
  kind : FieldKind := .number
  label : Option String := none
  min : Option Float := none
  max : Option Float := none
  /-- the values a choice is made from -/
  options : List Value := []
  deriving Repr, DecidableEq

/-- A problem shown as an example. -/
structure SampleProblem where
  name : Option String := none
  values : Scope
  deriving DecidableEq

/-- The form in which a problem is entered. -/
structure ProblemInput where
  schema : String
  fields : List InputField
  /-- holds of valid problems -/
  validation : Option Formula := none
  examples : List SampleProblem := []
  deriving DecidableEq

/-- How example problems are to be generated. -/
structure GenerationHints where
  /-- the field that is drawn first -/
  target : Option String := none
  /-- fields that are computed from others -/
  derived : Table Formula := .empty
  /-- readable values to draw from, by field -/
  preferred : Table (List Value) := .empty
  deriving DecidableEq

/-- The texts that a problem and its answer are shown in. -/
structure DisplayTemplates where
  problem : Option String := none
  answer : Option String := none
  deriving Repr, DecidableEq

/-! ### The nodes -/

/-- The kinds of nodes. -/
inductive NodeKind where
  | instruction | decision | checkpoint | milestone | embellishment | terminal
  deriving Repr, DecidableEq

/-- A rule to jump from a node to another one. -/
structure Skip where
  condition : Formula
  target : String
  deriving DecidableEq

/-- A change of the problem as it is displayed. -/
structure WorkingProblem where
  result : String
  label : Option String := none
  deriving Repr, DecidableEq

/-- A node that tells the learner what to do. -/
structure Instruction where
  next : Option String := none
  content : Option String := none
  workingProblem : Option WorkingProblem := none
  deriving Repr, DecidableEq

/-- An option of a decision. -/
structure DecisionOption where
  label : String
  value : String
  next : Option String := none
  /-- the label in descriptions of routes -/
  pathLabel : Option String := none
  deriving Repr, DecidableEq

/-- The label of an option in descriptions of routes. -/
def DecisionOption.shortLabel (o : DecisionOption) : String := o.pathLabel.getD o.label

/-- How the value of an answer selects an option. -/
inductive AnswerMode where
  /-- a true value selects the first option, a false one the second -/
  | boolean
  /-- the option with the text of the value is selected -/
  | value
  /-- a text selects as in mode `value`, anything else as in mode `boolean` -/
  | inferred
  deriving Repr, DecidableEq

/-- Whether a value selects among options by its text. -/
def AnswerMode.byText (mode : AnswerMode) (v : Value) : Bool :=
  match mode, v with
  | .value, _ | .inferred, .text _ => true
  | _, _ => false

/-- The answer to a decision. -/
structure Answer where
  mode : AnswerMode
  formula : Formula
  deriving DecidableEq

/-- A node at which the route branches. -/
structure Decision where
  options : List DecisionOption
  correctAnswer : Option Answer := none
  skipIf : Option Formula := none
  skipTo : Option String := none
  /-- whether routes only ever take the first option -/
  excludeFromExampleStructure : Bool := false
  content : Option String := none
  deriving DecidableEq

/-- What is accepted at a checkpoint. -/
inductive Expected where
  | single (f : Formula)
  | anyOf (fs : List Formula)
  deriving DecidableEq

/-- The formulas of which one has to fit. -/
def Expected.formulas : Expected → List Formula
  | single f => [f]
  | anyOf fs => fs

/-- A node at which the learner enters an answer. -/
structure Checkpoint where
  prompt : String
  expected : Expected
  /-- how far a number may be off -/
  tolerance : Option Float := none
  next : Option String := none
  skipIf : Option Formula := none
  skipTo : Option String := none
  /-- whether no route takes the skip -/
  excludeSkipFromPaths : Bool := false
  deriving DecidableEq

/-- A node that is merely passed. -/
structure PassThrough where
  next : Option String := none
  content : Option String := none
  deriving Repr, DecidableEq

/-- A node at which a route ends. -/
structure Terminal where
  celebration : Bool := false
  content : Option String := none
  deriving Repr, DecidableEq

/-- A node of a chart. -/
inductive Node where
  | instruction (n : Instruction)
  | decision (n : Decision)
  | checkpoint (n : Checkpoint)
  | milestone (n : PassThrough)
  | embellishment (n : PassThrough)
  | terminal (n : Terminal)
  deriving DecidableEq

/-- A skip rule, if it has both its parts. -/
def Skip.ofParts? (condition : Option Formula) (target : Option String) : Option Skip :=
  match condition, target with
  | some condition, some target => some ⟨condition, target⟩
  | _, _ => none

/-- The skip rule of a decision. -/
def Decision.skip? (d : Decision) : Option Skip := Skip.ofParts? d.skipIf d.skipTo

/-- The skip rule of a checkpoint. -/
def Checkpoint.skip? (c : Checkpoint) : Option Skip := Skip.ofParts? c.skipIf c.skipTo

/-- The skip rule of a checkpoint, if routes may take it. -/
def Checkpoint.openSkip? (c : Checkpoint) : Option Skip :=
  if c.excludeSkipFromPaths then none else c.skip?

namespace Node

/-- The kind of a node. -/
def kind : Node → NodeKind
  | instruction _ => .instruction
  | decision _ => .decision
  | checkpoint _ => .checkpoint
  | milestone _ => .milestone
  | embellishment _ => .embellishment
  | terminal _ => .terminal

/-- The successor a node itself declares. -/
def next? : Node → Option String
  | instruction n => n.next
  | checkpoint n => n.next
  | milestone n | embellishment n => n.next
  | decision _ | terminal _ => none

/-- The text of a node. -/
def content? : Node → Option String
  | instruction n => n.content
  | decision n => n.content
  | checkpoint n => some n.prompt
  | milestone n | embellishment n => n.content
  | terminal n => n.content

end Node

/-! ### The definition -/

/-- A chart as its author defines it. -/
structure Definition where
  id : String
  title : String
  problemInput : ProblemInput
  entryNode : String
  nodes : Table Node
  /-- successors of nodes that declare none themselves -/
  edges : Table (List String) := .empty
  /-- computed variables, over the problem and other variables -/
  computed : Table Formula := .empty
  generation : Option GenerationHints := none
  /-- conditions that generated problems have to satisfy -/
  constraints : Table Formula := .empty
  display : Option DisplayTemplates := none
  deriving DecidableEq

namespace Definition

/-- The fields that are computed from others. -/
def derived (d : Definition) : Table Formula :=
  (d.generation.map GenerationHints.derived).getD .empty

/-- The readable values of a field. -/
def preferred (d : Definition) (field : String) : List Value :=
  (d.generation.bind fun hints => hints.preferred.get? field).getD []

/-- The fields that are entered and not computed. -/
def independentFields (d : Definition) : List InputField :=
  d.problemInput.fields.filter fun field => !d.derived.contains field.name

end Definition

end ProcedureChart
