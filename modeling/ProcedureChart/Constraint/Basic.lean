import ProcedureChart.Value

/-!
# Constraints

The simple conditions that an expression is made of, as far as they can be told from its text: truth
values, comparisons of two terms, and tests whether a term is divisible by another. A constraint
keeps the texts of its terms. Negation flips the truth value or the operator.
-/

namespace ProcedureChart

/-- The operators of a comparison. -/
inductive CompareOp where
  | equal | notEqual | greaterEqual | lessEqual | greater | less
  deriving Repr, DecidableEq

namespace CompareOp

/-- All operators, in the order in which they are searched for in a text. -/
def all : List CompareOp := [equal, notEqual, greaterEqual, lessEqual, greater, less]

/-- How an operator is written. -/
def symbol : CompareOp → String
  | equal => "==" | notEqual => "!=" | greaterEqual => ">=" | lessEqual => "<="
  | greater => ">" | less => "<"

/-- The operator that holds where another one does not, NaN aside. -/
def negate : CompareOp → CompareOp
  | equal => notEqual | notEqual => equal
  | greater => lessEqual | lessEqual => greater
  | less => greaterEqual | greaterEqual => less

/-- Whether an operator holds between two values. -/
def holds (op : CompareOp) (left right : Value) : Bool :=
  match op with
  | equal => left.equals right
  | notEqual => !left.equals right
  | greaterEqual => left.toNumber ≥ right.toNumber
  | lessEqual => left.toNumber ≤ right.toNumber
  | greater => left.toNumber > right.toNumber
  | less => left.toNumber < right.toNumber

@[simp] theorem negate_negate (op : CompareOp) : op.negate.negate = op := by cases op <;> rfl

end CompareOp

/-- A simple condition. -/
inductive Constraint where
  | truth (b : Bool)
  /-- the literal is the value of the right term, if that is a literal -/
  | comparison (left : String) (op : CompareOp) (right : String) (literal : Option Value)
  /-- the left term is, or is not, divisible by the divisor -/
  | divisibility (left : String) (divisible : Bool) (divisor : String)
  deriving Repr, DecidableEq

/-- The kinds of constraints. -/
inductive ConstraintKind where
  | comparison | divisibility | boolean
  deriving Repr, DecidableEq

/-- The name of a kind. -/
def ConstraintKind.name : ConstraintKind → String
  | comparison => "comparison"
  | divisibility => "divisibility"
  | boolean => "boolean"

namespace Constraint

/-- The word for a truth value. -/
def truthWord (b : Bool) : String := if b then "true" else "false"

/-- The kind of a constraint. -/
def kind : Constraint → ConstraintKind
  | truth _ => .boolean
  | comparison .. => .comparison
  | divisibility .. => .divisibility

/-- The left term. A truth value is its own left and right term. -/
def left : Constraint → String
  | truth b => truthWord b
  | comparison left .. => left
  | divisibility left .. => left

/-- The operator between the terms; for a divisibility, the one between remainder and zero. -/
def op : Constraint → CompareOp
  | truth _ => .equal
  | comparison _ op .. => op
  | divisibility _ divisible _ => if divisible then .equal else .notEqual

/-- The right term; for a divisibility it is zero. -/
def right : Constraint → String
  | truth b => truthWord b
  | comparison _ _ right _ => right
  | divisibility .. => "0"

/-- The value of the right term, if that is a literal. -/
def literal? : Constraint → Option Value
  | truth b => some (.bool b)
  | comparison _ _ _ literal => literal
  | divisibility .. => some (.number 0.0)

/-- The divisor of a divisibility. -/
def divisor? : Constraint → Option String
  | divisibility _ _ divisor => some divisor
  | _ => none

/-- The opposite constraint. -/
def negate : Constraint → Constraint
  | truth b => truth !b
  | comparison left op right literal => comparison left op.negate right literal
  | divisibility left divisible divisor => divisibility left (!divisible) divisor

/-- The text of a constraint. -/
def display (k : Constraint) : String :=
  match k with
  | truth _ => k.right
  | comparison .. => k.left ++ " " ++ k.op.symbol ++ " " ++ k.right
  | divisibility _ _ divisor =>
    k.left ++ " % " ++ divisor ++ " " ++ k.op.symbol ++ " " ++ k.right

@[simp] theorem negate_negate (k : Constraint) : k.negate.negate = k := by
  cases k <;> simp [negate]

end Constraint

end ProcedureChart
