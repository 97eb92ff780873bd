import ProcedureChart.Constraint.Parser
import ProcedureChart.Numeric.Integral

/-!
# Filters

A constraint on a single field, as a test on the field's values. Only a constraint between a plain
name and a literal becomes a filter: what it says can be decided value by value, before a problem is
complete.
-/

namespace ProcedureChart

/-- A test on a value. -/
inductive FilterTest where
  | compare (op : CompareOp) (literal : Value)
  /-- the number leaves no remainder, or does leave one -/
  | divisible (divisor : Float) (expected : Bool)
  deriving Repr, DecidableEq

/-- A test on the values of a field. -/
structure FieldFilter where
  field : String
  test : FilterTest
  deriving Repr, DecidableEq

namespace FieldFilter

/-- Whether a value passes. What has no remainder at all passes no test of divisibility. -/
def accepts (f : FieldFilter) (v : Value) : Bool :=
  match f.test with
  | .compare op literal => op.holds v literal
  | .divisible divisor expected =>
    let remainder := Numeric.remainder v.toNumber divisor
    !remainder.isNaN && (remainder == 0.0) == expected

/-- Whether a text is a plain name: ASCII letters, digits and underscores, no digit in front. -/
def isPlainName (s : String) : Bool :=
  match s.toList with
  | [] => false
  | c :: cs => (c.isAlpha || c == '_') && cs.all fun c => c.isAlphanum || c == '_'

/-- The filter of a constraint. -/
def ofConstraint? : Constraint → Option FieldFilter
  | .truth _ => none
  | .comparison left op _ literal =>
    match literal with
    | some literal => if isPlainName left then some ⟨left, .compare op literal⟩ else none
    | none => none
  | .divisibility left divisible divisor =>
    if isPlainName left then
      match Numeric.readNumeral divisor.toList with
      | some x => if x == 0.0 then none else some ⟨left, .divisible x divisible⟩
      | none => none
    else none

end FieldFilter

end ProcedureChart
