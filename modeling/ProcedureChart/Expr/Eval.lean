import ProcedureChart.Context
import ProcedureChart.Expr.Basic
import ProcedureChart.Expr.Function

/-!
# Evaluation

`Expr.eval` computes the value of an expression in a context, lazily and from left to right: a left
operand that decides `&&` or `||` leaves the right one alone, a conditional evaluates one of its
branches, and the arguments of a call are evaluated before the function is looked up. The first
error ends the evaluation.
-/

namespace ProcedureChart.Expr

namespace Operator

/-- The value that the left operand alone settles. -/
def settled? : Operator → Value → Option Value
  | .and, left => if left.truthy then none else some (.bool false)
  | .or, left => if left.truthy then some (.bool true) else none
  | _, _ => none

/-- The sum of two numbers, or the joined texts of two values one of which is a text. -/
def add (left right : Value) : Value :=
  match left, right with
  | .text _, _ | _, .text _ => .text (left.display ++ right.display)
  | _, _ => .number (left.toNumber + right.toNumber)

/-- The value of an operator at two operands, the left of which does not settle it. -/
def apply (op : Operator) (left right : Value) : Value :=
  match op with
  | .or | .and => .bool right.truthy
  | .equal => .bool (left.equals right)
  | .notEqual => .bool !(left.equals right)
  | .less => .bool (left.toNumber < right.toNumber)
  | .greater => .bool (left.toNumber > right.toNumber)
  | .lessEqual => .bool (left.toNumber ≤ right.toNumber)
  | .greaterEqual => .bool (left.toNumber ≥ right.toNumber)
  | .plus => add left right
  | .minus => .number (left.toNumber - right.toNumber)
  | .times => .number (left.toNumber * right.toNumber)
  | .divide => .number (left.toNumber / right.toNumber)
  | .percent => .number (Numeric.remainder left.toNumber right.toNumber)

end Operator

/-- The field of a value, or why it has none. -/
def readField (v : Value) (part : String) : Except EvalError Value :=
  match v.field? part with
  | some inner => .ok inner
  | none => .error (.noField part v.typeName)

mutual

/-- The value of an expression in a context. -/
def eval (c : Context) : Expr → Except EvalError Value
  | .literal v => .ok v
  | .name s =>
    match c.lookup s with
    | some v => .ok v
    | none => .error (.unknownName s)
  | .state s =>
    match c.lookupState s with
    | some v => .ok v
    | none => .error (.unknownState s)
  | .field e part => do readField (← eval c e) part
  | .call function args => do callFunction function (← evalAll c args)
  | .negation e => do return .bool !(← eval c e).truthy
  | .opposite e => do return .number (-(← eval c e).toNumber)
  | .binary op left right => do
    let a ← eval c left
    match op.settled? a with
    | some v => return v
    | none => return op.apply a (← eval c right)
  | .conditional condition whenTrue whenFalse => do
    if (← eval c condition).truthy then eval c whenTrue else eval c whenFalse

/-- The values of a list of expressions, from left to right. -/
def evalAll (c : Context) : List Expr → Except EvalError (List Value)
  | [] => .ok []
  | e :: rest => do
    let v ← eval c e
    return v :: (← evalAll c rest)

end

end ProcedureChart.Expr
