import ProcedureChart.Proofs.Constraint.Single
import ProcedureChart.Proofs.Expr.Printer

/-!
# Conjunctions as they are written

Comparisons of a name with a literal and tests of a name for divisibility (`Atom`), joined by `&&`
in any nesting of parentheses (`Layout`). Both keep the blanks between their words, so that
everything that can be written with them is the text of one of them. An atom means a constraint, and
a filter on the values of a field.
-/

namespace ProcedureChart.Constraint

open ProcedureChart.Expr (Token Numeral Quote Shape numberValue)

/-! ### Words -/

/-- Blanks between two words, none or many. -/
abbrev Blanks : Type := { cs : List Char // cs.all Text.isBlank }

/-- A name that a filter can be about, and not one of the names that are values. -/
structure PlainName where
  name : String
  isPlain : FieldFilter.isPlainName name
  isFree : Expr.keyword? name = none

/-- The characters of a name. -/
def PlainName.chars (n : PlainName) : List Char := n.name.toList

/-- A number as it is written, possibly with a minus sign. -/
structure Decimal where
  negative : Bool
  numeral : Numeral

namespace Decimal

/-- The characters of a number. -/
def chars (d : Decimal) : List Char :=
  if d.negative then '-' :: d.numeral.digits else d.numeral.digits

/-- The value of a number. -/
def value (d : Decimal) : Float :=
  if d.negative then -numberValue d.numeral.digits else numberValue d.numeral.digits

end Decimal

/-- Whether a text can be quoted by either quote and is neither escaped nor nested. -/
def isTame (held : List Char) : Bool :=
  held.all fun c => !(['\'', '"', '\\', '(', ')'].contains c)

/-- A literal as it is written. -/
inductive Literal where
  | number (d : Decimal)
  | truth (b : Bool)
  | text (quote : Quote) (held : { cs : List Char // isTame cs })

namespace Literal

/-- The characters of a literal. -/
def chars : Literal → List Char
  | number d => d.chars
  | truth b => (truthWord b).toList
  | text quote held => quote.char :: (held ++ [quote.char])

/-- The value of a literal. -/
def value : Literal → Value
  | number d => .number d.value
  | truth b => .bool b
  | text _ held => .text (String.ofList held)

/-- The token of a literal. -/
def token : Literal → Token
  | number d => .number d.value
  | truth b => .name (truthWord b)
  | text _ held => .text (String.ofList held)

end Literal

/-! ### Atoms -/

/-- A simple condition on a field as it is written. -/
inductive Atom where
  | comparison (field : PlainName) (before : Blanks) (op : CompareOp) (behind : Blanks)
      (literal : Literal)
  /-- the remainder of the field by the divisor is, or is not, 0 -/
  | divisibility (field : PlainName) (before behind : Blanks) (divisor : Decimal)
      (beforeTest : Blanks) (divisible : Bool) (behindTest : Blanks)

namespace Atom

/-- The characters of an atom. -/
def chars : Atom → List Char
  | comparison field before op behind literal =>
    field.chars ++ (before ++ (op.symbol.toList ++ (behind ++ literal.chars)))
  | divisibility field before behind divisor beforeTest divisible behindTest =>
    field.chars ++ (before ++ '%' :: (behind ++ (divisor.chars ++ (beforeTest ++
      ((zeroOp divisible).symbol.toList ++ (behindTest ++ ['0']))))))

/-- The name of the field that an atom is about. -/
def field : Atom → PlainName
  | comparison field .. | divisibility field .. => field

/-- The divisor of an atom that tests for divisibility. -/
def divisor? : Atom → Option Decimal
  | comparison .. => none
  | divisibility _ _ _ divisor .. => some divisor

/-- The constraint that an atom means. -/
def constraint : Atom → Constraint
  | comparison field _ op _ literal =>
    .comparison field.name op (String.ofList literal.chars) (some literal.value)
  | divisibility field _ _ divisor _ divisible _ =>
    .divisibility field.name divisible (String.ofList divisor.chars)

/-- The filter that an atom means. -/
def filter : Atom → FieldFilter
  | comparison field _ op _ literal => ⟨field.name, .compare op literal.value⟩
  | divisibility field _ _ divisor _ divisible _ => ⟨field.name, .divisible divisor.value divisible⟩

@[simp] theorem field_filter (a : Atom) : a.filter.field = a.field.name := by cases a <;> rfl

end Atom

/-! ### Conjunctions -/

/-- Atoms joined by `&&` and put into parentheses, as they are written. -/
inductive Layout where
  | atom (a : Atom)
  | group (front : Blanks) (inside : Layout) (back : Blanks)
  | both (left : Layout) (before behind : Blanks) (right : Layout)

namespace Layout

/-- The characters of a layout. -/
def chars : Layout → List Char
  | atom a => a.chars
  | group front inside back => '(' :: (front ++ (inside.chars ++ (back ++ [')'])))
  | both left before behind right =>
    left.chars ++ (before ++ '&' :: '&' :: (behind ++ right.chars))

/-- The atoms of a layout, from left to right. -/
def atoms : Layout → List Atom
  | atom a => [a]
  | group _ inside _ => inside.atoms
  | both left _ _ right => left.atoms ++ right.atoms

/-- A layout as a text, with blanks around it. -/
def text (front : Blanks) (l : Layout) (back : Blanks) : String :=
  String.ofList (front ++ (l.chars ++ back))

end Layout

/-! ### The characters of words -/

theorem PlainName.cons (n : PlainName) :
    ∃ c cs, n.chars = c :: cs ∧ Text.isNameStart c ∧ cs.all Text.isNameChar :=
  cons_of_isPlainName (String.ofList_toList.symm ▸ n.isPlain)

theorem PlainName.all_isWordChar (n : PlainName) : n.chars.all Expr.isWordChar := by
  obtain ⟨c, cs, hn, hc, hcs⟩ := n.cons
  rw [hn]
  refine Expr.all_isWordChar_of_isNameChar ?_
  rw [List.all_cons, hcs, Text.isNameChar_of_isNameStart hc]
  rfl

theorem PlainName.shape (n : PlainName) : Shape (.name n.name) n.chars := by
  obtain ⟨c, cs, hn, -⟩ := n.cons
  exact .word rfl nofun (hn ▸ List.cons_ne_nil _ _) n.all_isWordChar

theorem Decimal.all_isWordChar (d : Decimal) : d.chars.all Expr.isWordChar := by
  have hdigits := d.numeral.isUnsigned.all_isWordChar
  rw [Decimal.chars]
  split
  · rw [List.all_cons, hdigits]
    decide
  · exact hdigits

theorem Decimal.shape (d : Decimal) : Shape (.number d.value) d.chars := by
  refine .word rfl nofun ?_ d.all_isWordChar
  rw [Decimal.chars]
  split
  · exact List.cons_ne_nil _ _
  · exact d.numeral.isUnsigned.ne_nil

/-- A class that a text belongs to keeps the other characters out of it. -/
theorem not_mem_of_class {p : Char → Bool} {c : Char} {w : List Char} (hc : p c = false)
    (h : w.all p) : c ∉ w := by
  intro hmem
  rw [List.all_eq_true.1 h c hmem] at hc
  cases hc

theorem not_mem_of_isTame {c : Char} {held : List Char} (h : isTame held)
    (hc : ['\'', '"', '\\', '(', ')'].contains c) : c ∉ held :=
  not_mem_of_class (congrArg Bool.not hc) h

theorem Literal.shape (l : Literal) : Shape l.token l.chars := by
  cases l with
  | number d => exact d.shape
  | truth b => cases b <;> exact .word rfl nofun (by decide) (by decide)
  | text quote held =>
    obtain ⟨held, hheld⟩ := held
    refine .text quote.char_cases (not_mem_of_isTame hheld ?_)
      (not_mem_of_isTame hheld (by decide)) (not_mem_of_isTame hheld (by decide))
    cases quote <;> decide

theorem Literal.token_ne_mark (l : Literal) (m : Expr.Mark) : l.token ≠ .mark m := by
  cases l <;> exact nofun

end ProcedureChart.Constraint
