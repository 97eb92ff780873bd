import ProcedureChart.Expr.Token
import ProcedureChart.Value

/-!
# Expressions

The syntax trees of the expression language. From loosest to tightest an expression is a
conditional, a chain of binary operators on one of six levels, a unary operator, an operand with
fields behind it, or a primary: a literal, a name, a state variable, a call or an expression in
parentheses, which leave no trace in the tree.
-/

namespace ProcedureChart

/-- The binary operators. -/
inductive Expr.Operator where
  | or | and | equal | notEqual | less | greater | lessEqual | greaterEqual
  | plus | minus | times | divide | percent
  deriving Repr, DecidableEq

/-- An expression of the chart language. -/
inductive Expr where
  | literal (v : Value)
  | name (s : String)
  | state (s : String)
  | field (e : Expr) (part : String)
  | call (function : String) (args : List Expr)
  | negation (e : Expr)
  | opposite (e : Expr)
  | binary (op : Expr.Operator) (left right : Expr)
  | conditional (condition whenTrue whenFalse : Expr)
  deriving Repr, Inhabited

namespace Expr

/-- The levels of binary operators, from loosest to tightest. -/
inductive Level where
  | disjunction | conjunction | equality | order | sum | product
  deriving Repr, DecidableEq

/-- The next tighter level; below the tightest stand the unary operators. -/
def Level.tighter : Level → Option Level
  | disjunction => some conjunction
  | conjunction => some equality
  | equality => some order
  | order => some sum
  | sum => some product
  | product => none

namespace Operator

/-- The level an operator stands on. Chains on one level group to the left. -/
def level : Operator → Level
  | or => .disjunction
  | and => .conjunction
  | equal | notEqual => .equality
  | less | greater | lessEqual | greaterEqual => .order
  | plus | minus => .sum
  | times | divide | percent => .product

/-- The mark an operator is written with. -/
def mark : Operator → Mark
  | or => .or | and => .and | equal => .equal | notEqual => .notEqual
  | less => .less | greater => .greater | lessEqual => .lessEqual | greaterEqual => .greaterEqual
  | plus => .plus | minus => .minus | times => .times | divide => .divide | percent => .percent

/-- The binary operator that a mark between two operands stands for. -/
def ofMark? : Mark → Option Operator
  | .or => some or | .and => some and | .equal => some equal | .notEqual => some notEqual
  | .less => some less | .greater => some greater
  | .lessEqual => some lessEqual | .greaterEqual => some greaterEqual
  | .plus => some plus | .minus => some minus
  | .times => some times | .divide => some divide | .percent => some percent
  | _ => none

theorem ofMark?_mark (op : Operator) : ofMark? op.mark = some op := by cases op <;> rfl

end Operator

/-- The names that are values and cannot be bound or called. -/
def keyword? : String → Option Value
  | "true" => some (.bool true)
  | "false" => some (.bool false)
  | "null" => some .null
  | _ => none

end Expr

end ProcedureChart
