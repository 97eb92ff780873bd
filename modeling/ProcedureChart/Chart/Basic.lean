import ProcedureChart.Chart.Reading

/-!
# Charts

A chart is a definition joined with a diagram. The two may disagree; ids that stand on one side
only are reported as warnings. The one thing a chart must have is its entry node, which is part of
its type.

Where a node leads to is looked for in three places, in this order: the node or option itself, the
edge table of the definition, the edges of the diagram. For an option, a diagram edge that carries
its label or value comes before both tables, in which the option's place among its siblings counts.
-/

namespace ProcedureChart

/-- Why a chart cannot be loaded, or not be followed everywhere. -/
inductive ChartError where
  /-- a text is not JSON, or not of the format -/
  | malformed
  | missingEntry (id : String)
  /-- a node leads to a node that is not defined -/
  | danglingReference (missing : String) (referrer : String)
  deriving Repr, DecidableEq

/-- The text of an error. -/
def ChartError.message : ChartError → String
  | malformed => "Failed to parse flowchart JSON"
  | missingEntry id => "Entry node '" ++ id ++ "' is not defined in the flowchart"
  | danglingReference missing referrer =>
    "Node '" ++ missing ++ "' not found, which is referenced by node '" ++ referrer ++ "'"

/-- A definition joined with a diagram. -/
structure Chart where
  definition : Definition
  diagram : Diagram
  entry_defined : definition.nodes.contains definition.entryNode = true

namespace Chart

/-- Joins a definition with a diagram, if there is one. -/
def load (definition : Definition) (diagram : Option Diagram) : Except ChartError Chart :=
  if h : definition.nodes.contains definition.entryNode then
    .ok ⟨definition, diagram.getD {}, h⟩
  else .error (.missingEntry definition.entryNode)

/-- Loads a chart from the JSON texts of a definition and a diagram. -/
def parse (definition : String) (diagram : Option String) : Except ChartError Chart :=
  match Definition.parse? definition with
  | none => .error .malformed
  | some definition =>
    match diagram with
    | none => load definition none
    | some text =>
      match Diagram.parse? text with
      | none => .error .malformed
      | some diagram => load definition (some diagram)

/-- The node at which every route begins. -/
def entry (c : Chart) : String := c.definition.entryNode

/-- The node of an id. -/
def node? (c : Chart) (id : String) : Option Node := c.definition.nodes.get? id

/-- Whether an id is defined. -/
def defines (c : Chart) (id : String) : Bool := c.definition.nodes.contains id

/-- The label of a node: that of the diagram, or else the node's own text. -/
def label? (c : Chart) (id : String) : Option String :=
  (c.diagram.nodes.get? id).or ((c.node? id).bind Node.content?)

/-- The id of the phase a node stands in. -/
def phase? (c : Chart) (id : String) : Option String := (c.diagram.phaseOf? id).map Phase.id

/-- The ids that stand on one side only: first those of the diagram, then, if the diagram has any
nodes, those of the definition. -/
def warnings (c : Chart) : List String :=
  let undefined := c.diagram.nodes.keys.filter fun id => !c.defines id
  let absent := c.definition.nodes.keys.filter fun id =>
    !c.diagram.nodes.isEmpty && !c.diagram.nodes.contains id
  (undefined.map fun id => "Diagram node '" ++ id ++ "' has no definition")
    ++ (absent.map fun id => "Node '" ++ id ++ "' does not appear in the diagram")

/-! ### Where nodes lead -/

/-- The entry of an id and a place in the edge table. -/
def tableTarget? (c : Chart) (id : String) (index : Nat) : Option String :=
  (c.definition.edges.get? id).bind fun targets => targets[index]?

/-- The target of the diagram edge at a place among those that leave a node. -/
def diagramTarget? (c : Chart) (id : String) (index : Nat) : Option String :=
  (c.diagram.edgesFrom id)[index]?.map DiagramEdge.target

/-- The successor of a node that does not branch. -/
def nextOf? (c : Chart) (id : String) : Option String :=
  (c.node? id).bind fun node =>
    (node.next?.or (c.tableTarget? id 0)).or (c.diagramTarget? id 0)

/-- Whether two texts agree up to the case of ASCII letters. -/
def agreeUpToCase (s t : String) : Bool := s.toLower == t.toLower

/-- Whether an edge carries the label or the value of an option, up to blanks around it and up to
the case of ASCII letters. -/
def labels (edge : DiagramEdge) (o : DecisionOption) : Bool :=
  match edge.label with
  | none => false
  | some label =>
    let label := String.ofList (Text.trim label.toList)
    agreeUpToCase label o.label || agreeUpToCase label o.value

/-- The target of an option, which stands at a place among the options of a node. -/
def optionTarget? (c : Chart) (id : String) (index : Nat) (o : DecisionOption) : Option String :=
  ((o.next.or (((c.diagram.edgesFrom id).find? fun edge => labels edge o).map DiagramEdge.target)).or
    (c.tableTarget? id index)).or (c.diagramTarget? id index)

/-- The first option of a decision that leads to a node, and its place. -/
def optionTo? (c : Chart) (id : String) (d : Decision) (target : String) :
    Option (DecisionOption × Nat) :=
  d.options.zipIdx.find? fun (o, index) => c.optionTarget? id index o == some target

/-- All nodes that a node may lead to, without repetition; a skip comes last. -/
def successors (c : Chart) (id : String) : List String :=
  match c.node? id with
  | none => []
  | some (.decision d) =>
    (d.options.zipIdx.filterMap (fun (o, index) => c.optionTarget? id index o)
      ++ (d.skip?.map Skip.target).toList).eraseDups
  | some (.checkpoint n) =>
    ((c.nextOf? id).toList ++ (n.skip?.map Skip.target).toList).eraseDups
  | some (.terminal _) => []
  | some _ => (c.nextOf? id).toList

/-- The first successor that is not defined, with the node that leads to it. -/
def danglingReference? (c : Chart) : Option ChartError :=
  c.definition.nodes.keys.findSome? fun id =>
    ((c.successors id).find? fun target => !c.defines target).map fun missing =>
      .danglingReference missing id

/-- Fails if some node leads to a node that is not defined. -/
def checkReferences (c : Chart) : Except ChartError Unit :=
  match c.danglingReference? with
  | some error => .error error
  | none => .ok ()

end Chart

end ProcedureChart
