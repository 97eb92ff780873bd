import ProcedureChart.Context
import ProcedureChart.Expr.Error

/-!
# Resolving named formulas

Named formulas may refer to each other in any order. `resolve` evaluates them pass by pass into a
scope: an entry that meets an unresolved name waits for the next pass, any other error ends the
resolution, and so does a pass in which every entry has to wait.
-/

namespace ProcedureChart.FixedPoint

variable {ε : Type}

/-- The state of a pass: the scope so far, and the entries that wait, last one first, with the error
of the last of them. -/
structure Pass (ε : Type) where
  scope : Scope
  waiting : List (String × ε) := []
  error : Option Expr.EvalError := none

/-- One pass over the entries. -/
def pass (eval : ε → Scope → Except Expr.EvalError Value) :
    List (String × ε) → Pass ε → Except Expr.EvalError (Pass ε)
  | [], p => .ok p
  | (name, formula) :: rest, p =>
    match eval formula p.scope with
    | .ok v => pass eval rest { p with scope := p.scope.insert name v }
    | .error error =>
      if error.errorClass = .name then
        pass eval rest { p with waiting := (name, formula) :: p.waiting, error := some error }
      else .error error

/-- Up to `passes` passes over the entries. -/
def resolveIn (eval : ε → Scope → Except Expr.EvalError Value) :
    (passes : Nat) → List (String × ε) → Scope → Except Expr.EvalError Scope
  | _, [], scope => .ok scope
  | 0, _ :: _, scope => .ok scope
  | passes + 1, entries, scope =>
    match pass eval entries ⟨scope, [], none⟩ with
    | .error error => .error error
    | .ok p =>
      match p.error with
      | some error =>
        if p.waiting.length = entries.length then .error error
        else resolveIn eval passes p.waiting.reverse p.scope
      | none => .ok p.scope

/-- The scope with the values of all entries. Every pass settles an entry, so as many passes as
there are entries are enough. -/
def resolve (eval : ε → Scope → Except Expr.EvalError Value) (entries : List (String × ε))
    (scope : Scope) : Except Expr.EvalError Scope :=
  resolveIn eval entries.length entries scope

end ProcedureChart.FixedPoint
