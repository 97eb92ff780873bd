import ProcedureChart.Chart.Definition

/-!
# Accepting answers

Whether a checkpoint accepts an answer. Each formula that the checkpoint expects is evaluated with
the answer bound to `input`, in order and only until one fits. A number fits if the answer stands
for it, up to the tolerance of the checkpoint; any other value has to equal the answer.
-/

namespace ProcedureChart.Checkpoint

/-- Whether an answer fits an expected value. -/
def fits (tolerance : Option Float) (answer expected : Value) : Bool :=
  match expected, tolerance with
  | .number x, some tolerance => (answer.toNumber - x).abs ≤ tolerance
  | .number x, none => answer.toNumber == x
  | expected, _ => answer.equals expected

/-- Whether an answer fits the value of one of some formulas. -/
def acceptsAny (tolerance : Option Float) (answer : Value) (ctx : Context) :
    List Formula → Except Expr.EvalError Bool
  | [] => .ok false
  | f :: rest =>
    match f.eval ctx with
    | .error error => .error error
    | .ok expected =>
      if fits tolerance answer expected then .ok true else acceptsAny tolerance answer ctx rest

/-- Whether a checkpoint accepts an answer. -/
def accepts (c : Checkpoint) (answer : Value) (ctx : Context) : Except Expr.EvalError Bool :=
  acceptsAny c.tolerance answer { ctx with input := some answer } c.expected.formulas

end ProcedureChart.Checkpoint
