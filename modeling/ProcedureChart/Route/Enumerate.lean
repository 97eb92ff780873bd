import ProcedureChart.Route.Branch

/-!
# Enumerating routes

All routes of a chart, depth first and in the order of the branches. The search keeps its open ends
on a stack, which makes it easy to stop: it ends early, and says so, when an open end is left but a
bound on the number of routes or of steps is reached.
-/

namespace ProcedureChart

/-- Bounds on the enumeration of routes. -/
structure Limits where
  maxPaths : Nat := 1000
  maxIterations : Nat := 10000
  deriving Repr, DecidableEq

/-- An open end of the search: the route so far, and the node to visit next. -/
structure OpenEnd where
  node : String
  route : Route
  deriving DecidableEq

/-- What comes of visiting the node of an open end. -/
inductive Visit where
  /-- the node is a terminal, and the route is complete -/
  | arrived (route : Route)
  /-- the search goes on at these ends, if there are any -/
  | onward (ends : List OpenEnd)

/-- The routes found. -/
structure Enumeration where
  routes : List Route := []
  /-- whether the search was ended by a bound -/
  truncated : Bool := false
  /-- the number of visits made -/
  iterations : Nat := 0
  deriving DecidableEq

namespace Chart

/-- Visits the node of an open end. A node that is on the route already, or that is not defined,
leads nowhere. -/
def visit (c : Chart) (e : OpenEnd) : Visit :=
  if e.route.nodeIds.contains e.node then .onward []
  else
    match c.node? e.node with
    | none => .onward []
    | some (.terminal _) => .arrived (e.route.visit e.node)
    | some node =>
      let route := e.route.visit e.node
      .onward ((c.branches e.node node).map fun b => ⟨b.target, route.follow b⟩)

/-- Works off a stack of open ends with so many visits and so many routes left to the bounds. The
routes of `done` stand in reverse. -/
def explore (c : Chart) (visits room : Nat) (stack : List OpenEnd) (done : Enumeration) :
    Enumeration :=
  match stack, visits, room with
  | [], _, _ => done
  | _ :: _, 0, _ => { done with truncated := true }
  | _ :: _, _ + 1, 0 => { done with truncated := true }
  | e :: stack, visits + 1, room + 1 =>
    match c.visit e with
    | .arrived route =>
      explore c visits room stack
        { done with routes := route :: done.routes, iterations := done.iterations + 1 }
    | .onward ends =>
      explore c visits (room + 1) (ends ++ stack) { done with iterations := done.iterations + 1 }
termination_by structural visits

/-- The routes of a chart within bounds. -/
def enumerate (c : Chart) (limits : Limits) : Enumeration :=
  let e := c.explore limits.maxIterations limits.maxPaths [⟨c.entry, {}⟩] {}
  { e with routes := e.routes.reverse }

end Chart

end ProcedureChart
