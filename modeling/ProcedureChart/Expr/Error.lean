import ProcedureChart.Expr.Token

/-!
# What can go wrong with an expression

Causes, not texts: the wording is in `SyntaxFault.message` and `EvalError.message` alone. A
malformed expression is reported with the byte at which it went wrong. The errors fall into four
classes, of which only the class of unresolved names can go away when more names get values.
-/

namespace ProcedureChart.Expr

/-- What the parser was waiting for when it met something else. -/
inductive Expected where
  | colon | closeParen | closeParenOrComma
  deriving Repr, DecidableEq

/-- How a source fails to be an expression. -/
inductive SyntaxFault where
  | emptyExpression
  | unexpectedCharacter (c : Char)
  /-- a dollar sign without a name behind it -/
  | nameExpected
  | unterminatedText
  | unexpected (found : Token)
  | unexpectedEnd
  | expected (what : Expected) (found : Option Token)
  /-- a dot without a name behind it -/
  | fieldNameExpected
  deriving Repr, DecidableEq

/-- A fault and the byte offset it is reported at. -/
structure SyntaxError where
  position : Nat
  fault : SyntaxFault
  deriving Repr, DecidableEq

/-- How many arguments a function takes. -/
inductive Arity where
  | exactly (n : Nat)
  | atLeast (n : Nat)
  deriving Repr, DecidableEq

/-- Why an expression has no value. -/
inductive EvalError where
  | malformed (error : SyntaxError)
  | unknownName (name : String)
  | unknownState (name : String)
  | unknownFunction (name : String)
  | arity (function : String) (expected : Arity) (found : Nat)
  /-- the value, of the named type, has no such field -/
  | noField (field : String) (typeName : String)
  deriving Repr, DecidableEq

/-- The classes of evaluation errors. -/
inductive ErrorClass where
  | malformed | name | arity | field
  deriving Repr, DecidableEq

namespace Expected

/-- How messages name what was expected. -/
def describe : Expected → String
  | colon => "':'"
  | closeParen => "')'"
  | closeParenOrComma => "')' or ','"

end Expected

namespace Arity

/-- Whether a number of arguments is acceptable. -/
def accepts : Arity → Nat → Bool
  | exactly n, count => count == n
  | atLeast n, count => n ≤ count

/-- How messages name an arity. -/
def describe : Arity → String
  | exactly n => toString n
  | atLeast n => "at least " ++ toString n

end Arity

namespace SyntaxFault

/-- The text of a fault, without its position. -/
def message : SyntaxFault → String
  | emptyExpression => "empty expression"
  | unexpectedCharacter c => "unexpected character '" ++ c.toString ++ "'"
  | nameExpected => "expected a name after '$'"
  | unterminatedText => "unterminated string literal"
  | unexpected found => "unexpected " ++ found.describe
  | unexpectedEnd => "unexpected end of expression"
  | expected what found =>
    let found := match found with
      | some token => token.describe
      | none => "end of expression"
    "expected " ++ what.describe ++ " but found " ++ found
  | fieldNameExpected => "expected a field name after '.'"

end SyntaxFault

namespace EvalError

/-- The class of an error. -/
def errorClass : EvalError → ErrorClass
  | malformed _ => .malformed
  | unknownName _ | unknownState _ | unknownFunction _ => .name
  | arity .. => .arity
  | noField .. => .field

/-- The full text of an error. -/
def message : EvalError → String
  | malformed error =>
    "Syntax error at position " ++ toString error.position ++ ": " ++ error.fault.message
  | unknownName name => "Unknown identifier '" ++ name ++ "'"
  | unknownState name => "Unknown state variable '$" ++ name ++ "'"
  | unknownFunction name => "Unknown function '" ++ name ++ "'"
  | arity function expected found =>
    "Function '" ++ function ++ "' expects " ++ expected.describe
      ++ " argument(s), but received " ++ toString found
  | noField field typeName => "Cannot access field '" ++ field ++ "' on " ++ typeName

end EvalError

end ProcedureChart.Expr
