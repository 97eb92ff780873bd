import ProcedureChart.Numeric.Shortest

/-!
# Tokens

The words of the expression language. A lexeme is a token together with the byte at which it begins
in the UTF-8 form of its source, the position that messages refer to.
-/

namespace ProcedureChart.Expr

/-- The marks of the expression language. -/
inductive Mark where
  | equal | notEqual | lessEqual | greaterEqual | and | or
  | less | greater | not | plus | minus | times | divide | percent
  | question | colon | openParen | closeParen | comma | dot
  deriving Repr, DecidableEq

namespace Mark

/-- How a mark is written. -/
def spelling : Mark → List Char
  | equal => ['=', '='] | notEqual => ['!', '='] | lessEqual => ['<', '=']
  | greaterEqual => ['>', '='] | and => ['&', '&'] | or => ['|', '|']
  | less => ['<'] | greater => ['>'] | not => ['!'] | plus => ['+'] | minus => ['-']
  | times => ['*'] | divide => ['/'] | percent => ['%'] | question => ['?'] | colon => [':']
  | openParen => ['('] | closeParen => [')'] | comma => [','] | dot => ['.']

/-- All marks, those of two characters before those of one. -/
def all : List Mark := [
  equal, notEqual, lessEqual, greaterEqual, and, or, less, greater, not, plus, minus, times,
  divide, percent, question, colon, openParen, closeParen, comma, dot]

theorem mem_all (m : Mark) : m ∈ all := by cases m <;> decide

theorem spelling_ne_nil (m : Mark) : m.spelling ≠ [] := by cases m <;> decide

theorem spelling_injective {m n : Mark} (h : m.spelling = n.spelling) : m = n := by
  revert h; cases m <;> cases n <;> decide

end Mark

/-- A word of the expression language. -/
inductive Token where
  | number (x : Float)
  /-- a text in quotes, without them and with its escapes resolved -/
  | text (s : String)
  | name (s : String)
  /-- a name with a dollar sign in front, without it -/
  | state (s : String)
  | mark (m : Mark)
  deriving Repr, DecidableEq

namespace Token

/-- Whether an operand can end with this token. A minus sign after it is a subtraction; after any
other token, a minus sign and a digit begin a negative number. -/
def endsOperand : Token → Bool
  | .number _ | .text _ | .name _ | .state _ => true
  | .mark .closeParen | .mark .dot => true
  | .mark _ => false

/-- How messages name a token. -/
def describe : Token → String
  | .number x => "number " ++ Numeric.positional x
  | .text s => "string '" ++ s ++ "'"
  | .name s => "identifier '" ++ s ++ "'"
  | .state s => "state variable '$" ++ s ++ "'"
  | .mark m => "'" ++ String.ofList m.spelling ++ "'"

end Token

/-- A token and the byte offset at which it begins. -/
structure Lexeme where
  token : Token
  position : Nat
  deriving Repr, DecidableEq

end ProcedureChart.Expr
