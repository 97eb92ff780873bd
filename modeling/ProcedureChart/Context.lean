import ProcedureChart.Value

/-!
# Contexts

What the names of an expression refer to. A bare name is looked up among the problem's values, then
among the computed variables, then in the user's state; a name with a dollar sign in the state and
then among the variables. The bare name `input` refers to the answer under validation, when there is
one.
-/

namespace ProcedureChart

/-- The scopes an expression is evaluated in. -/
structure Context where
  problem : Scope := .empty
  computed : Scope := .empty
  userState : Scope := .empty
  /-- the answer under validation at a checkpoint -/
  input : Option Value := none

namespace Context

/-- The value a bare name refers to. -/
def lookup (c : Context) (name : String) : Option Value :=
  match (if name = "input" then c.input else none) with
  | some answer => some answer
  | none => ((c.problem.get? name).or (c.computed.get? name)).or (c.userState.get? name)

/-- The value a name with a dollar sign refers to. -/
def lookupState (c : Context) (name : String) : Option Value :=
  (c.userState.get? name).or (c.computed.get? name)

end Context

end ProcedureChart
