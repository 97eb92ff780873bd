import ProcedureChart.Proofs.Expr.Grammar
import ProcedureChart.Proofs.Expr.Spelling

/-!
# Printing expressions

Trees that can be written down, and how they are written. A tree holds its numbers as numerals and
its names as texts that are names, so whatever the tree, there is a text for it. The text has one
space between any two words and parentheses only where a phrase stands at a rung of the grammar
that is tighter than its own (`Term.fit`): the left operand of `-` may be a difference, the
right one may not.

A term means an expression (`Term.tree`), in which numerals are numbers and parentheses have gone.
-/

namespace ProcedureChart.Expr

/-! ### Words -/

/-- A number as it is written: digits, and a point and further digits behind them if there is a
fraction. -/
structure Numeral where
  digits : List Char
  isUnsigned : IsUnsigned digits

/-- Whether a text is a name: a letter or an underscore, and then letters, numeric characters and
underscores. -/
def isName (s : String) : Bool :=
  match s.toList with
  | [] => false
  | c :: cs => Text.isNameStart c && cs.all Text.isNameChar

/-- A text that is a name. Fields are called by names of any kind. -/
abbrev Name : Type := { s : String // isName s }

/-- A name that can be bound, and not one of the names that are values. -/
structure Identifier where
  name : Name
  isFree : keyword? name = none

/-- One of the names that are values. -/
structure Keyword where
  name : Name
  value : Value
  keyword?_eq : keyword? name = some value

/-- What stands behind the dollar sign of a state variable; it may begin with a digit. -/
abbrev StateName : Type := { s : String // s ≠ "" ∧ s.toList.all Text.isNameChar }

/-- A token as it is written. -/
inductive Word where
  | number (n : Numeral)
  | text (s : String)
  | name (s : Name)
  | state (s : StateName)
  | mark (m : Mark)

/-- The two quotes that a text may stand in. -/
inductive Quote where
  | single | double

/-- The character of a quote. -/
def Quote.char : Quote → Char
  | single => '\''
  | double => '"'

theorem Quote.char_cases (quote : Quote) : quote.char = '\'' ∨ quote.char = '"' := by
  cases quote <;> decide

/-- The characters of a text with a backslash in front of each quote and each backslash. -/
def Quote.escape (quote : Quote) : List Char → List Char
  | [] => []
  | c :: cs =>
    if c = quote.char ∨ c = '\\' then '\\' :: c :: quote.escape cs
    else c :: quote.escape cs

namespace Word

/-- The token that a word is. -/
def token : Word → Token
  | number n => .number (numberValue n.digits)
  | text s => .text s
  | name s => .name s
  | state s => .state s
  | mark m => .mark m

/-- The characters of a word. -/
def spelling (quote : Quote) : Word → List Char
  | number n => n.digits
  | text s => quote.char :: (quote.escape s.toList ++ [quote.char])
  | name s => s.1.toList
  | state s => '$' :: s.1.toList
  | mark m => m.spelling

/-- The words that are marks. -/
@[simp] theorem token_mark (m : Mark) : (mark m).token = .mark m := rfl

end Word

/-! ### Terms -/

/-- A tree of the expression language as it can be written. -/
inductive Term where
  | number (n : Numeral)
  | text (s : String)
  | keyword (k : Keyword)
  | name (s : Identifier)
  | state (s : StateName)
  | field (e : Term) (part : Name)
  | call (function : Identifier) (args : List Term)
  | negation (e : Term)
  | opposite (e : Term)
  | binary (op : Operator) (left right : Term)
  | conditional (condition whenTrue whenFalse : Term)

namespace Term

mutual

/-- The expression that a term means. -/
def tree : Term → Expr
  | number n => .literal (.number (numberValue n.digits))
  | text s => .literal (.text s)
  | keyword k => .literal k.value
  | name s => .name s.name
  | state s => .state s
  | field e part => .field e.tree part
  | call function args => .call function.name (trees args)
  | negation e => .negation e.tree
  | opposite e => .opposite e.tree
  | binary op left right => .binary op left.tree right.tree
  | conditional condition whenTrue whenFalse =>
    .conditional condition.tree whenTrue.tree whenFalse.tree

/-- The expressions that some terms mean. -/
def trees : List Term → List Expr
  | [] => []
  | e :: rest => e.tree :: trees rest

end

/-- The tightest rung at which a term needs no parentheses. -/
def rung : Term → Rung
  | number _ | text _ | keyword _ | name _ | state _ | call _ _ => .primary
  | field _ _ => .operand
  | negation _ | opposite _ => .unary
  | binary op _ _ => .chain op.level
  | conditional _ _ _ => .conditional

/-- Words with parentheses around them where a looser phrase stands at a tighter rung. -/
def fit (place own : Rung) (words : List Word) : List Word :=
  if own.rank ≤ place.rank then words
  else .mark .openParen :: (words ++ [.mark .closeParen])

mutual

/-- The words of a term. -/
def words : Term → List Word
  | number n => [.number n]
  | text s => [.text s]
  | keyword k => [.name k.name]
  | name s => [.name s.name]
  | state s => [.state s]
  | field e part => fit .operand e.rung e.words ++ [.mark .dot, .name part]
  | call function args =>
    .name function.name :: .mark .openParen :: (argumentWords args ++ [.mark .closeParen])
  | negation e => .mark .not :: fit .unary e.rung e.words
  | opposite e => .mark .minus :: fit .unary e.rung e.words
  | binary op left right =>
    fit (.chain op.level) left.rung left.words
      ++ .mark op.mark :: fit (.ofLevel op.level.tighter) right.rung right.words
  | conditional condition whenTrue whenFalse =>
    fit (.chain .disjunction) condition.rung condition.words
      ++ .mark .question :: (whenTrue.words ++ .mark .colon :: whenFalse.words)

/-- The words of the arguments of a call, with commas between them. -/
def argumentWords : List Term → List Word
  | [] => []
  | [e] => e.words
  | e :: rest => e.words ++ .mark .comma :: argumentWords rest

end

/-- The text of a term: its words with a space between any two of them. -/
def print (quote : Quote) (e : Term) : String :=
  String.ofList ([' '].intercalate (e.words.map (Word.spelling quote)))

end Term

end ProcedureChart.Expr
