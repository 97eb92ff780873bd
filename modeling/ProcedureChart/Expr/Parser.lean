import ProcedureChart.Expr.Eval
import ProcedureChart.Expr.Lexer

/-!
# Parsing

`parse` turns lexemes into an expression by recursive descent, one level of operators after the
other. What a step leaves unread is shorter than what it was given, by its type, and that is why
the descent ends.

A malformed source has one syntax fault, its first. What stands to the left of that fault may fail
on its own, though, and such a failure comes first. So the parser returns the fault together with
the complete expressions in front of it (`Fragment`); `Fragment.error` evaluates those, as far as
they are reached, and comes to the fault last.
-/

namespace ProcedureChart.Expr

/-! ### Malformed expressions -/

/-- A malformed expression as far as it could be read: complete parts on the way to the fault. -/
inductive Fragment where
  /-- the fault itself -/
  | fault (error : SyntaxError)
  /-- behind a complete expression, whatever its value -/
  | after (e : Expr) (rest : Fragment)
  /-- inside the right operand of an operator -/
  | rightOf (op : Operator) (left : Expr) (rest : Fragment)
  /-- inside the first branch of a conditional -/
  | whenTrueOf (condition : Expr) (rest : Fragment)
  /-- behind the first branch of a conditional -/
  | whenFalseOf (condition whenTrue : Expr) (rest : Fragment)
  deriving Repr

namespace Fragment

/-- The fault of a malformed expression. -/
def syntaxError : Fragment → SyntaxError
  | fault error => error
  | after _ rest | rightOf _ _ rest | whenTrueOf _ rest | whenFalseOf _ _ rest => rest.syntaxError

/-- The error of a malformed expression in a context: the first error of the parts in front of the
fault that are reached, or else the fault. -/
def error (c : Context) : Fragment → EvalError
  | fault error => .malformed error
  | after e rest =>
    match e.eval c with
    | .error error => error
    | .ok _ => rest.error c
  | rightOf op left rest =>
    match left.eval c with
    | .error error => error
    | .ok v => if (op.settled? v).isSome then .malformed rest.syntaxError else rest.error c
  | whenTrueOf condition rest =>
    match condition.eval c with
    | .error error => error
    | .ok v => if v.truthy then rest.error c else .malformed rest.syntaxError
  | whenFalseOf condition whenTrue rest =>
    match condition.eval c with
    | .error error => error
    | .ok v =>
      if v.truthy then
        match whenTrue.eval c with
        | .error error => error
        | .ok _ => .malformed rest.syntaxError
      else rest.error c

end Fragment

/-! ### The parser -/

/-- What is left unread of a list of lexemes of which something was read. -/
abbrev Rest (ts : List Lexeme) : Type := { rest : List Lexeme // rest.length < ts.length }

/-- The byte at which the next lexeme begins; at the end it is the end of the source. -/
def nextPosition (stop : Nat) : List Lexeme → Nat
  | [] => stop
  | t :: _ => t.position

/-- The fault of meeting the next lexeme where something else has to stand. -/
def expectedFault (stop : Nat) (what : Expected) (ts : List Lexeme) : Fragment :=
  .fault ⟨nextPosition stop ts, .expected what (ts.head?.map Lexeme.token)⟩

/-- Passes over a mark, if it is the next lexeme. -/
def skip? (m : Mark) : (ts : List Lexeme) → Option (Rest ts)
  | [] => none
  | t :: rest => if t.token = .mark m then some ⟨rest, by simp⟩ else none

/-- Reads an operator of a level, if it is the next lexeme. -/
def operator? (level : Level) : (ts : List Lexeme) → Option (Operator × Rest ts)
  | [] => none
  | t :: rest =>
    match t.token with
    | .mark m =>
      match Operator.ofMark? m with
      | some op => if op.level = level then some (op, ⟨rest, by simp⟩) else none
      | none => none
    | _ => none

/-- A number that falls from level to level: 0 for what is tighter than all of them. -/
def looseness : Option Level → Nat
  | none => 0
  | some .product => 1
  | some .sum => 2
  | some .order => 3
  | some .equality => 4
  | some .conjunction => 5
  | some .disjunction => 6

theorem looseness_disjunction : looseness (some .disjunction) = 6 := rfl

theorem looseness_tighter (l : Level) : looseness l.tighter < looseness (some l) := by
  cases l <;> decide

theorem looseness_le (l : Level) : looseness (some l) ≤ 6 := by
  cases l <;> decide

/-- Reads a name, if it is the next lexeme. -/
def name? : (ts : List Lexeme) → Option (String × Rest ts)
  | [] => none
  | t :: rest =>
    match t.token with
    | .name s => some (s, ⟨rest, by simp⟩)
    | _ => none

/-- Reads the fields behind an operand. -/
def fields (stop : Nat) (e : Expr) (ts : List Lexeme) :
    Except Fragment (Expr × { rest : List Lexeme // rest.length ≤ ts.length }) :=
  match skip? .dot ts with
  | none => .ok (e, ⟨ts, Nat.le_refl _⟩)
  | some ⟨r₁, h₁⟩ =>
    match name? r₁ with
    | none => .error (.after e (.fault ⟨nextPosition stop r₁, .fieldNameExpected⟩))
    | some (part, ⟨r₂, h₂⟩) =>
      match fields stop (.field e part) r₂ with
      | .error fragment => .error fragment
      | .ok (e, ⟨r₃, h₃⟩) => .ok (e, ⟨r₃, by omega⟩)
termination_by ts.length

mutual

/-- Reads a conditional, or what stands without a question mark behind it. Conditionals group to the
right. `stop` is the position of the end of the source. -/
def conditional? (stop : Nat) (ts : List Lexeme) : Except Fragment (Expr × Rest ts) :=
  match chained stop (some .disjunction) ts with
  | .error fragment => .error fragment
  | .ok (condition, ⟨r₁, h₁⟩) =>
    match skip? .question r₁ with
    | none => .ok (condition, ⟨r₁, h₁⟩)
    | some ⟨r₂, h₂⟩ =>
      match conditional? stop r₂ with
      | .error fragment => .error (.whenTrueOf condition fragment)
      | .ok (whenTrue, ⟨r₃, h₃⟩) =>
        match skip? .colon r₃ with
        | none => .error (.whenFalseOf condition whenTrue (expectedFault stop .colon r₃))
        | some ⟨r₄, h₄⟩ =>
          match conditional? stop r₄ with
          | .error fragment => .error (.whenFalseOf condition whenTrue fragment)
          | .ok (whenFalse, ⟨r₅, h₅⟩) =>
            .ok (.conditional condition whenTrue whenFalse, ⟨r₅, by omega⟩)
termination_by ts.length * 16 + 9
decreasing_by
  all_goals
    have := looseness_disjunction
    omega

/-- Reads a chain of operators of a level, or a unary expression below all levels. -/
def chained (stop : Nat) (level : Option Level) (ts : List Lexeme) :
    Except Fragment (Expr × Rest ts) :=
  match level with
  | none => unary stop ts
  | some level =>
    match chained stop level.tighter ts with
    | .error fragment => .error fragment
    | .ok (left, ⟨r₁, h₁⟩) =>
      match chain stop level left r₁ with
      | .error fragment => .error fragment
      | .ok (e, ⟨r₂, h₂⟩) => .ok (e, ⟨r₂, by omega⟩)
termination_by ts.length * 16 + looseness level + 2
decreasing_by
  · omega
  · have := looseness_tighter level; omega
  · omega

/-- Reads the operators of a level and their right operands behind a left operand. -/
def chain (stop : Nat) (level : Level) (left : Expr) (ts : List Lexeme) :
    Except Fragment (Expr × { rest : List Lexeme // rest.length ≤ ts.length }) :=
  match operator? level ts with
  | none => .ok (left, ⟨ts, Nat.le_refl _⟩)
  | some (op, ⟨r₁, h₁⟩) =>
    match chained stop level.tighter r₁ with
    | .error fragment => .error (.rightOf op left fragment)
    | .ok (right, ⟨r₂, h₂⟩) =>
      match chain stop level (.binary op left right) r₂ with
      | .error fragment => .error fragment
      | .ok (e, ⟨r₃, h₃⟩) => .ok (e, ⟨r₃, by omega⟩)
termination_by ts.length * 16
decreasing_by
  · have := looseness_tighter level
    have := looseness_le level
    omega
  · omega

/-- Reads unary operators and their operand. -/
def unary (stop : Nat) (ts : List Lexeme) : Except Fragment (Expr × Rest ts) :=
  match skip? .not ts with
  | some ⟨r₁, h₁⟩ =>
    match unary stop r₁ with
    | .error fragment => .error fragment
    | .ok (e, ⟨r₂, h₂⟩) => .ok (.negation e, ⟨r₂, by omega⟩)
  | none =>
    match skip? .minus ts with
    | some ⟨r₁, h₁⟩ =>
      match unary stop r₁ with
      | .error fragment => .error fragment
      | .ok (e, ⟨r₂, h₂⟩) => .ok (.opposite e, ⟨r₂, by omega⟩)
    | none =>
      match primary stop ts with
      | .error fragment => .error fragment
      | .ok (e, ⟨r₁, h₁⟩) =>
        match fields stop e r₁ with
        | .error fragment => .error fragment
        | .ok (e, ⟨r₂, h₂⟩) => .ok (e, ⟨r₂, by omega⟩)
termination_by ts.length * 16 + 1
decreasing_by all_goals omega

/-- Reads an operand without the fields behind it. -/
def primary (stop : Nat) (ts : List Lexeme) : Except Fragment (Expr × Rest ts) :=
  match ts with
  | [] => .error (.fault ⟨stop, .unexpectedEnd⟩)
  | t :: r₁ =>
    match t.token with
    | .number x => .ok (.literal (.number x), ⟨r₁, by simp⟩)
    | .text s => .ok (.literal (.text s), ⟨r₁, by simp⟩)
    | .state s => .ok (.state s, ⟨r₁, by simp⟩)
    | .name s =>
      match keyword? s with
      | some v => .ok (.literal v, ⟨r₁, by simp⟩)
      | none =>
        match skip? .openParen r₁ with
        | none => .ok (.name s, ⟨r₁, by simp⟩)
        | some ⟨r₂, h₂⟩ =>
          match skip? .closeParen r₂ with
          | some ⟨r₃, h₃⟩ => .ok (.call s [], ⟨r₃, by simp only [List.length_cons]; omega⟩)
          | none =>
            match arguments stop r₂ with
            | .error fragment => .error fragment
            | .ok (args, ⟨r₃, h₃⟩) =>
              .ok (.call s args, ⟨r₃, by simp only [List.length_cons]; omega⟩)
    | .mark .openParen =>
      match conditional? stop r₁ with
      | .error fragment => .error fragment
      | .ok (e, ⟨r₂, h₂⟩) =>
        match skip? .closeParen r₂ with
        | none => .error (.after e (expectedFault stop .closeParen r₂))
        | some ⟨r₃, h₃⟩ => .ok (e, ⟨r₃, by simp only [List.length_cons]; omega⟩)
    | .mark m => .error (.fault ⟨t.position, .unexpected (.mark m)⟩)
termination_by ts.length * 16
decreasing_by all_goals (simp only [List.length_cons]; omega)

/-- Reads the arguments of a call and the parenthesis behind them. -/
def arguments (stop : Nat) (ts : List Lexeme) : Except Fragment (List Expr × Rest ts) :=
  match conditional? stop ts with
  | .error fragment => .error fragment
  | .ok (e, ⟨r₁, h₁⟩) =>
    match skip? .comma r₁ with
    | some ⟨r₂, h₂⟩ =>
      match arguments stop r₂ with
      | .error fragment => .error (.after e fragment)
      | .ok (args, ⟨r₃, h₃⟩) => .ok (e :: args, ⟨r₃, by omega⟩)
    | none =>
      match skip? .closeParen r₁ with
      | some ⟨r₂, h₂⟩ => .ok ([e], ⟨r₂, by omega⟩)
      | none => .error (.after e (expectedFault stop .closeParenOrComma r₁))
termination_by ts.length * 16 + 10
decreasing_by all_goals omega

end

/-- Reads a whole source that ends at the byte `stop`. -/
def parse (stop : Nat) (ts : List Lexeme) : Except Fragment Expr :=
  if ts.isEmpty then .error (.fault ⟨0, .emptyExpression⟩)
  else
    match conditional? stop ts with
    | .error fragment => .error fragment
    | .ok (e, ⟨rest, _⟩) =>
      match rest with
      | [] => .ok e
      | t :: _ => .error (.after e (.fault ⟨t.position, .unexpected t.token⟩))

end ProcedureChart.Expr
