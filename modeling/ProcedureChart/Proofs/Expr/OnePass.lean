import ProcedureChart.Expr.Formula
import ProcedureChart.Proofs.Expr.Descent

/-!
# Evaluation in one pass

The expression language can be evaluated while it is parsed, without a tree: `evaluateInOnePass`
goes through the lexemes once and computes values as it goes. It carries a flag, `live`, that is
false where a value is not asked for: in the branch of a conditional that is not taken and in the
right operand of `&&` and `||` when the left one decides. There the pass goes on, since a malformed
source has to be reported wherever it is malformed, but it looks nothing up and calls nothing; what
it returns is a placeholder.

The pass returns the first error it meets, of whichever kind. It is written level by level as the
parser is, and like the parser it is first defined with the bound on what it leaves unread in its
types (`OnePass.Bounded`) and then stated without it.
-/

namespace ProcedureChart.Expr

/-! ### Operators -/

/-- Whether the value of an operator depends on its right operand, given the left one. -/
def Operator.wantsRight (left : Value) : Operator → Bool
  | or => !left.truthy
  | and => left.truthy
  | _ => true

/-- The value of an operator behind its right operand. -/
def Operator.join (live : Bool) (op : Operator) (left right : Value) : Value :=
  match op with
  | or => .bool (left.truthy || right.truthy)
  | and => .bool (left.truthy && right.truthy)
  | op => if live then op.apply left right else .null

/-- The error of meeting the next lexeme where something else has to stand. -/
def expectedError (stop : Nat) (what : Expected) (ts : List Lexeme) : EvalError :=
  .malformed (expectedFault stop what ts).syntaxError

/-- The value of a name or a state variable, which is looked up only where it is asked for. -/
def resolve (live : Bool) (unknown : EvalError) (found : Option Value) : Except EvalError Value :=
  if live then
    match found with
    | some v => .ok v
    | none => .error unknown
  else .ok .null

/-- The value of a call, which is made only where it is asked for. -/
def invoke (live : Bool) (function : String) (args : List Value) : Except EvalError Value :=
  if live then callFunction function args else .ok .null

/-- The value of a field, which is taken only where it is asked for. -/
def project (live : Bool) (v : Value) (part : String) : Except EvalError Value :=
  if live then readField v part else .ok v

/-! ### The pass -/

namespace OnePass.Bounded

/-- Passes the fields behind an operand. -/
def fields (stop : Nat) (live : Bool) (v : Value) (ts : List Lexeme) :
    Except EvalError (Value × { rest : List Lexeme // rest.length ≤ ts.length }) :=
  match skip? .dot ts with
  | none => .ok (v, ⟨ts, Nat.le_refl _⟩)
  | some ⟨r₁, h₁⟩ =>
    match name? r₁ with
    | none => .error (.malformed ⟨nextPosition stop r₁, .fieldNameExpected⟩)
    | some (part, ⟨r₂, h₂⟩) =>
      match project live v part with
      | .error error => .error error
      | .ok inner =>
        match fields stop live inner r₂ with
        | .error error => .error error
        | .ok (v, ⟨r₃, h₃⟩) => .ok (v, ⟨r₃, by omega⟩)
termination_by ts.length

mutual

/-- Passes a conditional, or what stands without a question mark behind it. -/
def conditional (c : Context) (stop : Nat) (live : Bool) (ts : List Lexeme) :
    Except EvalError (Value × Rest ts) :=
  match chained c stop live (some .disjunction) ts with
  | .error error => .error error
  | .ok (condition, ⟨r₁, h₁⟩) =>
    match skip? .question r₁ with
    | none => .ok (condition, ⟨r₁, h₁⟩)
    | some ⟨r₂, h₂⟩ =>
      match conditional c stop (live && condition.truthy) r₂ with
      | .error error => .error error
      | .ok (whenTrue, ⟨r₃, h₃⟩) =>
        match skip? .colon r₃ with
        | none => .error (expectedError stop .colon r₃)
        | some ⟨r₄, h₄⟩ =>
          match conditional c stop (live && !condition.truthy) r₄ with
          | .error error => .error error
          | .ok (whenFalse, ⟨r₅, h₅⟩) =>
            let taken := if condition.truthy then whenTrue else whenFalse
            .ok (if live then taken else .null, ⟨r₅, by omega⟩)
termination_by ts.length * 16 + 9
decreasing_by
  all_goals
    have := looseness_disjunction
    omega

/-- Passes a chain of operators of a level, or a unary expression below all levels. -/
def chained (c : Context) (stop : Nat) (live : Bool) (level : Option Level) (ts : List Lexeme) :
    Except EvalError (Value × Rest ts) :=
  match level with
  | none => unary c stop live ts
  | some level =>
    match chained c stop live level.tighter ts with
    | .error error => .error error
    | .ok (left, ⟨r₁, h₁⟩) =>
      match chain c stop live level left r₁ with
      | .error error => .error error
      | .ok (v, ⟨r₂, h₂⟩) => .ok (v, ⟨r₂, Nat.lt_of_le_of_lt h₂ h₁⟩)
termination_by ts.length * 16 + looseness level + 2
decreasing_by
  · omega
  · have := looseness_tighter level; omega
  · omega

/-- Passes the operators of a level and their right operands behind a left operand. -/
def chain (c : Context) (stop : Nat) (live : Bool) (level : Level) (left : Value)
    (ts : List Lexeme) :
    Except EvalError (Value × { rest : List Lexeme // rest.length ≤ ts.length }) :=
  match operator? level ts with
  | none => .ok (left, ⟨ts, Nat.le_refl _⟩)
  | some (op, ⟨r₁, h₁⟩) =>
    match chained c stop (live && op.wantsRight left) level.tighter r₁ with
    | .error error => .error error
    | .ok (right, ⟨r₂, h₂⟩) =>
      match chain c stop live level (op.join live left right) r₂ with
      | .error error => .error error
      | .ok (v, ⟨r₃, h₃⟩) => .ok (v, ⟨r₃, by omega⟩)
termination_by ts.length * 16
decreasing_by
  · have := looseness_tighter level
    have := looseness_le level
    omega
  · omega

/-- Passes unary operators and their operand. -/
def unary (c : Context) (stop : Nat) (live : Bool) (ts : List Lexeme) :
    Except EvalError (Value × Rest ts) :=
  match skip? .not ts with
  | some ⟨r₁, h₁⟩ =>
    match unary c stop live r₁ with
    | .error error => .error error
    | .ok (v, ⟨r₂, h₂⟩) => .ok (.bool !v.truthy, ⟨r₂, Nat.lt_trans h₂ h₁⟩)
  | none =>
    match skip? .minus ts with
    | some ⟨r₁, h₁⟩ =>
      match unary c stop live r₁ with
      | .error error => .error error
      | .ok (v, ⟨r₂, h₂⟩) => .ok (.number (-v.toNumber), ⟨r₂, Nat.lt_trans h₂ h₁⟩)
    | none =>
      match primary c stop live ts with
      | .error error => .error error
      | .ok (v, ⟨r₁, h₁⟩) =>
        match fields stop live v r₁ with
        | .error error => .error error
        | .ok (v, ⟨r₂, h₂⟩) => .ok (v, ⟨r₂, Nat.lt_of_le_of_lt h₂ h₁⟩)
termination_by ts.length * 16 + 1
decreasing_by all_goals omega

/-- Passes an operand without the fields behind it. -/
def primary (c : Context) (stop : Nat) (live : Bool) (ts : List Lexeme) :
    Except EvalError (Value × Rest ts) :=
  match ts with
  | [] => .error (.malformed ⟨stop, .unexpectedEnd⟩)
  | t :: r₁ =>
    match t.token with
    | .number x => .ok (.number x, ⟨r₁, by simp⟩)
    | .text s => .ok (.text s, ⟨r₁, by simp⟩)
    | .state s =>
      match resolve live (.unknownState s) (c.lookupState s) with
      | .error error => .error error
      | .ok v => .ok (v, ⟨r₁, by simp⟩)
    | .name s =>
      match keyword? s with
      | some v => .ok (v, ⟨r₁, by simp⟩)
      | none =>
        match skip? .openParen r₁ with
        | none =>
          match resolve live (.unknownName s) (c.lookup s) with
          | .error error => .error error
          | .ok v => .ok (v, ⟨r₁, by simp⟩)
        | some ⟨r₂, h₂⟩ =>
          match skip? .closeParen r₂ with
          | some ⟨r₃, h₃⟩ =>
            match invoke live s [] with
            | .error error => .error error
            | .ok v => .ok (v, ⟨r₃, by simp only [List.length_cons]; omega⟩)
          | none =>
            match arguments c stop live r₂ with
            | .error error => .error error
            | .ok (args, ⟨r₃, h₃⟩) =>
              match invoke live s args with
              | .error error => .error error
              | .ok v => .ok (v, ⟨r₃, by simp only [List.length_cons]; omega⟩)
    | .mark .openParen =>
      match conditional c stop live r₁ with
      | .error error => .error error
      | .ok (v, ⟨r₂, h₂⟩) =>
        match skip? .closeParen r₂ with
        | none => .error (expectedError stop .closeParen r₂)
        | some ⟨r₃, h₃⟩ => .ok (v, ⟨r₃, by simp only [List.length_cons]; omega⟩)
    | .mark m => .error (.malformed ⟨t.position, .unexpected (.mark m)⟩)
termination_by ts.length * 16
decreasing_by all_goals (simp only [List.length_cons]; omega)

/-- Passes the arguments of a call and the parenthesis behind them. -/
def arguments (c : Context) (stop : Nat) (live : Bool) (ts : List Lexeme) :
    Except EvalError (List Value × Rest ts) :=
  match conditional c stop live ts with
  | .error error => .error error
  | .ok (v, ⟨r₁, h₁⟩) =>
    match skip? .comma r₁ with
    | some ⟨r₂, h₂⟩ =>
      match arguments c stop live r₂ with
      | .error error => .error error
      | .ok (args, ⟨r₃, h₃⟩) => .ok (v :: args, ⟨r₃, Nat.lt_trans h₃ (Nat.lt_trans h₂ h₁)⟩)
    | none =>
      match skip? .closeParen r₁ with
      | some ⟨r₂, h₂⟩ => .ok ([v], ⟨r₂, Nat.lt_trans h₂ h₁⟩)
      | none => .error (expectedError stop .closeParenOrComma r₁)
termination_by ts.length * 16 + 10
decreasing_by all_goals omega

end

end OnePass.Bounded

namespace OnePass

variable {c : Context} {stop : Nat} {live : Bool}

/-- Passes a conditional. -/
def conditional (c : Context) (stop : Nat) (live : Bool) (ts : List Lexeme) :
    Except EvalError (Value × List Lexeme) :=
  bare (Bounded.conditional c stop live ts)

/-- Passes a chain of operators of a level, or a unary expression below all levels. -/
def chained (c : Context) (stop : Nat) (live : Bool) (level : Option Level) (ts : List Lexeme) :
    Except EvalError (Value × List Lexeme) :=
  bare (Bounded.chained c stop live level ts)

/-- Passes operators of a level and their right operands behind a left operand. -/
def chain (c : Context) (stop : Nat) (live : Bool) (level : Level) (left : Value)
    (ts : List Lexeme) : Except EvalError (Value × List Lexeme) :=
  bare (Bounded.chain c stop live level left ts)

/-- Passes unary operators and their operand. -/
def unary (c : Context) (stop : Nat) (live : Bool) (ts : List Lexeme) :
    Except EvalError (Value × List Lexeme) :=
  bare (Bounded.unary c stop live ts)

/-- Passes an operand without the fields behind it. -/
def primary (c : Context) (stop : Nat) (live : Bool) (ts : List Lexeme) :
    Except EvalError (Value × List Lexeme) :=
  bare (Bounded.primary c stop live ts)

/-- Passes the fields behind an operand. -/
def fields (stop : Nat) (live : Bool) (v : Value) (ts : List Lexeme) :
    Except EvalError (Value × List Lexeme) :=
  bare (Bounded.fields stop live v ts)

/-- Passes the arguments of a call and the parenthesis behind them. -/
def arguments (c : Context) (stop : Nat) (live : Bool) (ts : List Lexeme) :
    Except EvalError (List Value × List Lexeme) :=
  bare (Bounded.arguments c stop live ts)

/-! ### Equations -/

/-- Passes the branches of a conditional behind its question mark. -/
def branches (c : Context) (stop : Nat) (live : Bool) (condition : Value) (ts : List Lexeme) :
    Except EvalError (Value × List Lexeme) :=
  match conditional c stop (live && condition.truthy) ts with
  | .error error => .error error
  | .ok (whenTrue, r₁) =>
    match behind? .colon r₁ with
    | none => .error (expectedError stop .colon r₁)
    | some r₂ =>
      match conditional c stop (live && !condition.truthy) r₂ with
      | .error error => .error error
      | .ok (whenFalse, r₃) =>
        let taken := if condition.truthy then whenTrue else whenFalse
        .ok (if live then taken else .null, r₃)

/-- A condition, and behind a question mark the branches. The branch that is not taken is read with
`live` off. -/
theorem conditional_eq (c : Context) (stop : Nat) (live : Bool) (ts : List Lexeme) :
    conditional c stop live ts =
      (chained c stop live (some .disjunction) ts).bind fun (condition, r₁) =>
        match behind? .question r₁ with
        | none => .ok (condition, r₁)
        | some r₂ => branches c stop live condition r₂ := by
  simp only [conditional, branches, chained, behind?]
  rw [Bounded.conditional]
  obtain error | ⟨condition, r₁, h₁⟩ := Bounded.chained c stop live (some .disjunction) ts
  · rfl
  · dsimp only [bare, Except.bind]
    obtain _ | ⟨r₂, h₂⟩ := skip? .question r₁
    · rfl
    · dsimp only [Option.map]
      obtain error | ⟨whenTrue, r₃, h₃⟩ :=
        Bounded.conditional c stop (live && condition.truthy) r₂
      · rfl
      · dsimp only [bare, Except.bind]
        obtain _ | ⟨r₄, h₄⟩ := skip? .colon r₃
        · rfl
        · dsimp only [Option.map]
          obtain error | ⟨whenFalse, r₅, h₅⟩ :=
            Bounded.conditional c stop (live && !condition.truthy) r₄ <;> rfl

theorem chained_none (c : Context) (stop : Nat) (live : Bool) (ts : List Lexeme) :
    chained c stop live none ts = unary c stop live ts := by
  rw [chained, Bounded.chained, unary]

theorem chained_some (c : Context) (stop : Nat) (live : Bool) (level : Level)
    (ts : List Lexeme) :
    chained c stop live (some level) ts =
      (chained c stop live level.tighter ts).bind fun (left, rest) =>
        chain c stop live level left rest := by
  simp only [chained, chain]
  rw [Bounded.chained]
  obtain error | ⟨left, r₁, h₁⟩ := Bounded.chained c stop live level.tighter ts
  · rfl
  · dsimp only [bare, Except.bind]
    obtain error | ⟨v, r₂, h₂⟩ := Bounded.chain c stop live level left r₁ <;> rfl

/-- The operators of one level, from the left. The right operand is live only where the left value
does not settle the operator. -/
theorem chain_eq (c : Context) (stop : Nat) (live : Bool) (level : Level) (left : Value)
    (ts : List Lexeme) :
    chain c stop live level left ts =
      match behindOperator? level ts with
      | none => .ok (left, ts)
      | some (op, r₁) =>
        match chained c stop (live && op.wantsRight left) level.tighter r₁ with
        | .error error => .error error
        | .ok (right, r₂) => chain c stop live level (op.join live left right) r₂ := by
  simp only [chain, chained, behindOperator?]
  rw [Bounded.chain]
  obtain _ | ⟨op, r₁, h₁⟩ := operator? level ts
  · rfl
  · dsimp only [Option.map]
    obtain error | ⟨right, r₂, h₂⟩ :=
      Bounded.chained c stop (live && op.wantsRight left) level.tighter r₁
    · rfl
    · dsimp only [bare, Except.bind]
      obtain error | ⟨v, r₃, h₃⟩ :=
        Bounded.chain c stop live level (op.join live left right) r₂ <;> rfl

/-- Passes an operand and the fields behind it. -/
def operand (c : Context) (stop : Nat) (live : Bool) (ts : List Lexeme) :
    Except EvalError (Value × List Lexeme) :=
  (primary c stop live ts).bind fun (v, rest) => fields stop live v rest

/-- Signs are applied to the value on the way back from the recursion. -/
theorem unary_eq (c : Context) (stop : Nat) (live : Bool) (ts : List Lexeme) :
    unary c stop live ts =
      match behind? .not ts with
      | some rest => (unary c stop live rest).map (Prod.map (fun v => .bool !v.truthy) id)
      | none =>
        match behind? .minus ts with
        | some rest => (unary c stop live rest).map (Prod.map (fun v => .number (-v.toNumber)) id)
        | none => operand c stop live ts := by
  simp only [unary, operand, primary, fields, behind?]
  rw [Bounded.unary]
  obtain _ | ⟨r₁, h₁⟩ := skip? .not ts
  · dsimp only [Option.map]
    obtain _ | ⟨r₁, h₁⟩ := skip? .minus ts
    · dsimp only
      obtain error | ⟨v, r₁, h₁⟩ := Bounded.primary c stop live ts
      · rfl
      · dsimp only [bare, Except.bind]
        obtain error | ⟨v, r₂, h₂⟩ := Bounded.fields stop live v r₁ <;> rfl
    · dsimp only
      obtain error | ⟨v, r₂, h₂⟩ := Bounded.unary c stop live r₁ <;> rfl
  · dsimp only [Option.map]
    obtain error | ⟨v, r₂, h₂⟩ := Bounded.unary c stop live r₁ <;> rfl

/-- The loop over fields. Where nothing is live, none is taken, but the names have to be there. -/
theorem fields_eq (stop : Nat) (live : Bool) (v : Value) (ts : List Lexeme) :
    fields stop live v ts =
      match behind? .dot ts with
      | none => .ok (v, ts)
      | some r₁ =>
        match behindName? r₁ with
        | none => .error (.malformed ⟨nextPosition stop r₁, .fieldNameExpected⟩)
        | some (part, r₂) =>
          match project live v part with
          | .error error => .error error
          | .ok inner => fields stop live inner r₂ := by
  simp only [fields, behind?, behindName?]
  rw [Bounded.fields]
  obtain _ | ⟨r₁, h₁⟩ := skip? .dot ts
  · rfl
  · dsimp only [Option.map]
    obtain _ | ⟨part, r₂, h₂⟩ := name? r₁
    · rfl
    · dsimp only
      obtain error | inner := project live v part
      · rfl
      · dsimp only
        obtain error | ⟨v, r₃, h₃⟩ := Bounded.fields stop live inner r₂ <;> rfl

/-- Passes what stands behind the opening parenthesis of a call. -/
def call (c : Context) (stop : Nat) (live : Bool) (function : String) (ts : List Lexeme) :
    Except EvalError (Value × List Lexeme) :=
  match behind? .closeParen ts with
  | some rest => (invoke live function []).map (·, rest)
  | none =>
    (arguments c stop live ts).bind fun (args, rest) =>
      (invoke live function args).map (·, rest)

/-- Passes what stands behind a name. -/
def named (c : Context) (stop : Nat) (live : Bool) (s : String) (ts : List Lexeme) :
    Except EvalError (Value × List Lexeme) :=
  match keyword? s with
  | some v => .ok (v, ts)
  | none =>
    match behind? .openParen ts with
    | none => (resolve live (.unknownName s) (c.lookup s)).map (·, ts)
    | some rest => call c stop live s rest

/-- Passes what stands behind an opening parenthesis. -/
def parenthesized (c : Context) (stop : Nat) (live : Bool) (ts : List Lexeme) :
    Except EvalError (Value × List Lexeme) :=
  (conditional c stop live ts).bind fun (v, r₁) =>
    match behind? .closeParen r₁ with
    | none => .error (expectedError stop .closeParen r₁)
    | some r₂ => .ok (v, r₂)

theorem primary_nil (c : Context) (stop : Nat) (live : Bool) :
    primary c stop live [] = .error (.malformed ⟨stop, .unexpectedEnd⟩) := by
  rw [primary, Bounded.primary]
  rfl

/-- What an operand can begin with. A name goes on to `named`, which tells calls and keywords
apart. -/
theorem primary_cons (c : Context) (stop : Nat) (live : Bool) (t : Lexeme)
    (rest : List Lexeme) :
    primary c stop live (t :: rest) =
      match t.token with
      | .number x => .ok (.number x, rest)
      | .text s => .ok (.text s, rest)
      | .state s => (resolve live (.unknownState s) (c.lookupState s)).map (·, rest)
      | .name s => named c stop live s rest
      | .mark .openParen => parenthesized c stop live rest
      | .mark m => .error (.malformed ⟨t.position, .unexpected (.mark m)⟩) := by
  simp only [primary, named, call, parenthesized, arguments, conditional, behind?]
  rw [Bounded.primary]
  obtain ⟨token, position⟩ := t
  cases token with
  | number x => rfl
  | text s => rfl
  | state s =>
    dsimp only
    obtain error | v := resolve live (.unknownState s) (c.lookupState s) <;> rfl
  | name s =>
    dsimp only
    obtain _ | v := keyword? s
    · dsimp only
      obtain _ | ⟨r₂, h₂⟩ := skip? .openParen rest
      · dsimp only [Option.map]
        obtain error | v := resolve live (.unknownName s) (c.lookup s) <;> rfl
      · dsimp only [Option.map]
        obtain _ | ⟨r₃, h₃⟩ := skip? .closeParen r₂
        · dsimp only
          obtain error | ⟨args, r₃, h₃⟩ := Bounded.arguments c stop live r₂
          · rfl
          · dsimp only [bare, Except.bind]
            obtain error | v := invoke live s args <;> rfl
        · dsimp only
          obtain error | v := invoke live s [] <;> rfl
    · rfl
  | mark m =>
    cases m with
    | openParen =>
      dsimp only
      obtain error | ⟨v, r₂, h₂⟩ := Bounded.conditional c stop live rest
      · rfl
      · dsimp only [bare, Except.bind]
        obtain _ | ⟨r₃, h₃⟩ := skip? .closeParen r₂ <;> rfl
    | _ => rfl

/-- The values of the arguments, in order. They are all live if the call is. -/
theorem arguments_eq (c : Context) (stop : Nat) (live : Bool) (ts : List Lexeme) :
    arguments c stop live ts =
      (conditional c stop live ts).bind fun (v, r₁) =>
        match behind? .comma r₁ with
        | some r₂ =>
          match arguments c stop live r₂ with
          | .error error => .error error
          | .ok (args, r₃) => .ok (v :: args, r₃)
        | none =>
          match behind? .closeParen r₁ with
          | some r₂ => .ok ([v], r₂)
          | none => .error (expectedError stop .closeParenOrComma r₁) := by
  simp only [arguments, conditional, behind?]
  rw [Bounded.arguments]
  obtain error | ⟨v, r₁, h₁⟩ := Bounded.conditional c stop live ts
  · rfl
  · dsimp only [bare, Except.bind]
    obtain _ | ⟨r₂, h₂⟩ := skip? .comma r₁
    · dsimp only [Option.map]
      obtain _ | ⟨r₂, h₂⟩ := skip? .closeParen r₁ <;> rfl
    · dsimp only [Option.map]
      obtain error | ⟨args, r₃, h₃⟩ := Bounded.arguments c stop live r₂ <;> rfl

end OnePass

/-! ### Whole sources -/

/-- The value of a source in a context, in one pass over its lexemes. -/
def evaluateInOnePass (source : String) (c : Context) : Except EvalError Value :=
  match tokenize source with
  | .error error => .error (.malformed error)
  | .ok ts =>
    if ts.isEmpty then .error (.malformed ⟨0, .emptyExpression⟩)
    else
      (OnePass.conditional c source.utf8ByteSize true ts).bind fun (v, rest) =>
        match rest with
        | [] => .ok v
        | t :: _ => .error (.malformed ⟨t.position, .unexpected t.token⟩)

end ProcedureChart.Expr
