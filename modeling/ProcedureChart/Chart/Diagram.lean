import ProcedureChart.Table

/-!
# Diagrams

The companion of a chart definition: labels of nodes, labelled edges between nodes, and the phases
that nodes are grouped in.
-/

namespace ProcedureChart

/-- An edge of a diagram. -/
structure DiagramEdge where
  source : String
  target : String
  label : Option String := none
  deriving Repr, DecidableEq

/-- A phase of a diagram. -/
structure Phase where
  id : String
  title : String
  nodeIds : List String := []
  deriving Repr, DecidableEq

/-- A diagram of a chart. -/
structure Diagram where
  /-- labels of nodes -/
  nodes : Table String := .empty
  edges : List DiagramEdge := []
  phases : List Phase := []
  deriving DecidableEq

instance : Inhabited Diagram := ⟨{}⟩

namespace Diagram

/-- The first phase that lists a node. -/
def phaseOf? (d : Diagram) (id : String) : Option Phase :=
  d.phases.find? fun phase => phase.nodeIds.contains id

/-- The edges that leave a node, in their order. -/
def edgesFrom (d : Diagram) (id : String) : List DiagramEdge :=
  d.edges.filter fun edge => edge.source == id

end Diagram

end ProcedureChart
