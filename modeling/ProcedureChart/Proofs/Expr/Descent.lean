import ProcedureChart.Expr.Parser

/-!
# The equations of the parser

The parser carries the proof that it makes progress in the types of its results. Here its functions
are stated without that proof, each by one equation over plain lists of lexemes. What is proved
about the parser is proved from these equations and from `Descent.induction`, the order in which its
functions call each other.
-/

namespace ProcedureChart.Expr

variable {α ε : Type} {stop : Nat} {ts : List Lexeme}

/-! ### Results without their bound -/

/-- What a step found and what it left unread, without the bound on the latter. -/
def bare {p : List Lexeme → Prop} :
    Except ε (α × { rest : List Lexeme // p rest }) → Except ε (α × List Lexeme)
  | .error error => .error error
  | .ok (a, ⟨rest, _⟩) => .ok (a, rest)

/-- The bound holds of what was left unread. -/
theorem bound_of_bare_eq_ok {p : List Lexeme → Prop}
    {x : Except ε (α × { rest : List Lexeme // p rest })} {a : α} {rest : List Lexeme}
    (h : bare x = .ok (a, rest)) : p rest := by
  obtain error | ⟨a', rest', hrest⟩ := x
  · cases h
  · cases h
    exact hrest

/-! ### Single lexemes -/

/-- What is left behind a mark, if it is the next lexeme. -/
def behind? (m : Mark) (ts : List Lexeme) : Option (List Lexeme) := (skip? m ts).map Subtype.val

/-- What is left behind an operator of a level, if it is the next lexeme. -/
def behindOperator? (level : Level) (ts : List Lexeme) : Option (Operator × List Lexeme) :=
  (operator? level ts).map fun (op, rest) => (op, rest.1)

/-- What is left behind a name, if it is the next lexeme. -/
def behindName? (ts : List Lexeme) : Option (String × List Lexeme) :=
  (name? ts).map fun (s, rest) => (s, rest.1)

theorem behind?_cons (m : Mark) (t : Lexeme) (rest : List Lexeme) :
    behind? m (t :: rest) = if t.token = .mark m then some rest else none := by
  rw [behind?, skip?]
  split <;> rfl

/-- A mark is found exactly where it is the token of the first lexeme, and then the others are the
rest. -/
theorem behind?_eq_some {m : Mark} {rest : List Lexeme} :
    behind? m ts = some rest ↔ ∃ t, t.token = .mark m ∧ ts = t :: rest := by
  cases ts with
  | nil => simp [behind?, skip?]
  | cons t r =>
    rw [behind?_cons]
    constructor
    · intro h
      split at h
      · next htoken =>
        cases h
        exact ⟨t, htoken, rfl⟩
      · cases h
    · rintro ⟨t, htoken, heq⟩
      cases heq
      rw [if_pos htoken]

/-- The operator of a mark is spelled by this mark. -/
theorem Operator.mark_of_ofMark? {m : Mark} {op : Operator} (h : ofMark? m = some op) :
    op.mark = m := by
  cases m <;> cases h <;> rfl

/-- An operator of a level is found exactly where its mark is the token of the first lexeme.
Operators of other levels are passed by. -/
theorem behindOperator?_eq_some {level : Level} {op : Operator} {rest : List Lexeme} :
    behindOperator? level ts = some (op, rest) ↔
      ∃ t, t.token = .mark op.mark ∧ op.level = level ∧ ts = t :: rest := by
  cases ts with
  | nil => simp [behindOperator?, operator?]
  | cons t r =>
    constructor
    · intro h
      obtain ⟨⟨op', r'⟩, hread, heq⟩ := Option.map_eq_some_iff.1 h
      cases heq
      simp only [operator?] at hread
      split at hread
      · next m htoken =>
        split at hread
        · next op hop =>
          split at hread
          · next hlevel =>
            cases hread
            exact ⟨t, by rw [htoken, Operator.mark_of_ofMark? hop], hlevel, rfl⟩
          · cases hread
        · cases hread
      · cases hread
    · rintro ⟨t, htoken, rfl, heq⟩
      cases heq
      simp [behindOperator?, operator?, htoken, Operator.ofMark?_mark]

/-- A name is found exactly where it is the token of the first lexeme. -/
theorem behindName?_eq_some {s : String} {rest : List Lexeme} :
    behindName? ts = some (s, rest) ↔ ∃ t, t.token = .name s ∧ ts = t :: rest := by
  cases ts with
  | nil => simp [behindName?, name?]
  | cons t r =>
    constructor
    · intro h
      obtain ⟨⟨s', r'⟩, hread, heq⟩ := Option.map_eq_some_iff.1 h
      cases heq
      simp only [name?] at hread
      split at hread
      · next htoken =>
        cases hread
        exact ⟨t, htoken, rfl⟩
      · cases hread
    · rintro ⟨t, htoken, heq⟩
      cases heq
      simp [behindName?, name?, htoken]

namespace Descent

/-! ### The functions of the parser -/

/-- Reads a conditional. -/
def conditional (stop : Nat) (ts : List Lexeme) : Except Fragment (Expr × List Lexeme) :=
  bare (conditional? stop ts)

/-- Reads a chain of operators of a level, or a unary expression below all levels. -/
def chained (stop : Nat) (level : Option Level) (ts : List Lexeme) :
    Except Fragment (Expr × List Lexeme) :=
  bare (Expr.chained stop level ts)

/-- Reads operators of a level and their right operands behind a left operand. -/
def chain (stop : Nat) (level : Level) (left : Expr) (ts : List Lexeme) :
    Except Fragment (Expr × List Lexeme) :=
  bare (Expr.chain stop level left ts)

/-- Reads unary operators and their operand. -/
def unary (stop : Nat) (ts : List Lexeme) : Except Fragment (Expr × List Lexeme) :=
  bare (Expr.unary stop ts)

/-- Reads an operand without the fields behind it. -/
def primary (stop : Nat) (ts : List Lexeme) : Except Fragment (Expr × List Lexeme) :=
  bare (Expr.primary stop ts)

/-- Reads the fields behind an operand. -/
def fields (stop : Nat) (e : Expr) (ts : List Lexeme) : Except Fragment (Expr × List Lexeme) :=
  bare (Expr.fields stop e ts)

/-- Reads the arguments of a call and the parenthesis behind them. -/
def arguments (stop : Nat) (ts : List Lexeme) : Except Fragment (List Expr × List Lexeme) :=
  bare (Expr.arguments stop ts)

/-! ### Progress -/

/-- Reading a phrase takes a lexeme at least. The functions of the parser carry this with their
results, and without it they would not be known to end. -/
theorem length_of_conditional {e : Expr} {rest : List Lexeme}
    (h : conditional stop ts = .ok (e, rest)) : rest.length < ts.length :=
  bound_of_bare_eq_ok h

/-- So does reading an operand of a level. -/
theorem length_of_chained {level : Option Level} {e : Expr} {rest : List Lexeme}
    (h : chained stop level ts = .ok (e, rest)) : rest.length < ts.length :=
  bound_of_bare_eq_ok h

theorem length_of_behind {m : Mark} {rest : List Lexeme} (h : behind? m ts = some rest) :
    rest.length < ts.length := by
  obtain ⟨t, -, rfl⟩ := behind?_eq_some.1 h
  exact Nat.lt_succ_self _

theorem length_of_behindOperator {level : Level} {op : Operator} {rest : List Lexeme}
    (h : behindOperator? level ts = some (op, rest)) : rest.length < ts.length := by
  obtain ⟨t, -, -, rfl⟩ := behindOperator?_eq_some.1 h
  exact Nat.lt_succ_self _

theorem length_of_behindName {s : String} {rest : List Lexeme}
    (h : behindName? ts = some (s, rest)) : rest.length < ts.length := by
  obtain ⟨t, -, rfl⟩ := behindName?_eq_some.1 h
  exact Nat.lt_succ_self _

/-! ### Equations -/

/-- Reads the branches of a conditional behind its question mark. -/
def branches (stop : Nat) (condition : Expr) (ts : List Lexeme) :
    Except Fragment (Expr × List Lexeme) :=
  match conditional stop ts with
  | .error fragment => .error (.whenTrueOf condition fragment)
  | .ok (whenTrue, r₁) =>
    match behind? .colon r₁ with
    | none => .error (.whenFalseOf condition whenTrue (expectedFault stop .colon r₁))
    | some r₂ =>
      match conditional stop r₂ with
      | .error fragment => .error (.whenFalseOf condition whenTrue fragment)
      | .ok (whenFalse, r₃) => .ok (.conditional condition whenTrue whenFalse, r₃)

/-- The parser as equations, one for each of its functions. The bounds that the functions carry
along are left out, so this is the grammar as it is read off from left to right. -/
theorem conditional_eq (stop : Nat) (ts : List Lexeme) :
    conditional stop ts =
      (chained stop (some .disjunction) ts).bind fun (condition, r₁) =>
        match behind? .question r₁ with
        | none => .ok (condition, r₁)
        | some r₂ => branches stop condition r₂ := by
  simp only [conditional, branches, chained, behind?]
  rw [conditional?]
  obtain fragment | ⟨condition, r₁, h₁⟩ := Expr.chained stop (some .disjunction) ts
  · rfl
  · dsimp only [bare, Except.bind]
    obtain _ | ⟨r₂, h₂⟩ := skip? .question r₁
    · rfl
    · dsimp only [Option.map]
      obtain fragment | ⟨whenTrue, r₃, h₃⟩ := conditional? stop r₂
      · rfl
      · dsimp only [bare, Except.bind]
        obtain _ | ⟨r₄, h₄⟩ := skip? .colon r₃
        · rfl
        · dsimp only [Option.map]
          obtain fragment | ⟨whenFalse, r₅, h₅⟩ := conditional? stop r₄ <;> rfl

/-- Behind the tightest level of operators there are the signs. -/
theorem chained_none (stop : Nat) (ts : List Lexeme) :
    chained stop none ts = unary stop ts := by
  rw [chained, Expr.chained, unary]

/-- A level begins with an operand of the next tighter one. -/
theorem chained_some (stop : Nat) (level : Level) (ts : List Lexeme) :
    chained stop (some level) ts =
      (chained stop level.tighter ts).bind fun (left, rest) => chain stop level left rest := by
  simp only [chained, chain]
  rw [Expr.chained]
  obtain fragment | ⟨left, r₁, h₁⟩ := Expr.chained stop level.tighter ts
  · rfl
  · dsimp only [bare, Except.bind]
    obtain fragment | ⟨e, r₂, h₂⟩ := Expr.chain stop level left r₁ <;> rfl

/-- The loop of a level. A fault in the right operand is kept with the operator and the tree in
front of it, since an error in that tree comes first. -/
theorem chain_eq (stop : Nat) (level : Level) (left : Expr) (ts : List Lexeme) :
    chain stop level left ts =
      match behindOperator? level ts with
      | none => .ok (left, ts)
      | some (op, r₁) =>
        match chained stop level.tighter r₁ with
        | .error fragment => .error (.rightOf op left fragment)
        | .ok (right, r₂) => chain stop level (.binary op left right) r₂ := by
  simp only [chain, chained, behindOperator?]
  rw [Expr.chain]
  obtain _ | ⟨op, r₁, h₁⟩ := operator? level ts
  · rfl
  · dsimp only [Option.map]
    obtain fragment | ⟨right, r₂, h₂⟩ := Expr.chained stop level.tighter r₁
    · rfl
    · dsimp only [bare, Except.bind]
      obtain fragment | ⟨e, r₃, h₃⟩ := Expr.chain stop level (.binary op left right) r₂ <;> rfl

/-- Reads an operand and the fields behind it. -/
def operand (stop : Nat) (ts : List Lexeme) : Except Fragment (Expr × List Lexeme) :=
  (primary stop ts).bind fun (e, rest) => fields stop e rest

/-- Signs are taken off one by one, a negation or a minus, down to an operand. The result of the
recursion is wrapped on the way back. -/
theorem unary_eq (stop : Nat) (ts : List Lexeme) :
    unary stop ts =
      match behind? .not ts with
      | some rest => (unary stop rest).map (Prod.map .negation id)
      | none =>
        match behind? .minus ts with
        | some rest => (unary stop rest).map (Prod.map .opposite id)
        | none => operand stop ts := by
  simp only [unary, operand, primary, fields, behind?]
  rw [Expr.unary]
  obtain _ | ⟨r₁, h₁⟩ := skip? .not ts
  · dsimp only [Option.map]
    obtain _ | ⟨r₁, h₁⟩ := skip? .minus ts
    · dsimp only
      obtain fragment | ⟨e, r₁, h₁⟩ := Expr.primary stop ts
      · rfl
      · dsimp only [bare, Except.bind]
        obtain fragment | ⟨e, r₂, h₂⟩ := Expr.fields stop e r₁ <;> rfl
    · dsimp only
      obtain fragment | ⟨e, r₂, h₂⟩ := Expr.unary stop r₁ <;> rfl
  · dsimp only [Option.map]
    obtain fragment | ⟨e, r₂, h₂⟩ := Expr.unary stop r₁ <;> rfl

/-- The loop over fields. A point has to have a name behind it, and the value in front of it is kept
in the fault that is reported otherwise. -/
theorem fields_eq (stop : Nat) (e : Expr) (ts : List Lexeme) :
    fields stop e ts =
      match behind? .dot ts with
      | none => .ok (e, ts)
      | some r₁ =>
        match behindName? r₁ with
        | none => .error (.after e (.fault ⟨nextPosition stop r₁, .fieldNameExpected⟩))
        | some (part, r₂) => fields stop (.field e part) r₂ := by
  simp only [fields, behind?, behindName?]
  rw [Expr.fields]
  obtain _ | ⟨r₁, h₁⟩ := skip? .dot ts
  · rfl
  · dsimp only [Option.map]
    obtain _ | ⟨part, r₂, h₂⟩ := name? r₁
    · rfl
    · dsimp only
      obtain fragment | ⟨e, r₃, h₃⟩ := Expr.fields stop (.field e part) r₂ <;> rfl

/-- Reads what stands behind the opening parenthesis of a call. -/
def call (stop : Nat) (function : String) (ts : List Lexeme) :
    Except Fragment (Expr × List Lexeme) :=
  match behind? .closeParen ts with
  | some rest => .ok (.call function [], rest)
  | none => (arguments stop ts).bind fun (args, rest) => .ok (.call function args, rest)

/-- Reads what stands behind a name. -/
def named (stop : Nat) (s : String) (ts : List Lexeme) : Except Fragment (Expr × List Lexeme) :=
  match keyword? s with
  | some v => .ok (.literal v, ts)
  | none =>
    match behind? .openParen ts with
    | none => .ok (.name s, ts)
    | some rest => call stop s rest

/-- Reads what stands behind an opening parenthesis. -/
def parenthesized (stop : Nat) (ts : List Lexeme) : Except Fragment (Expr × List Lexeme) :=
  (conditional stop ts).bind fun (e, r₁) =>
    match behind? .closeParen r₁ with
    | none => .error (.after e (expectedFault stop .closeParen r₁))
    | some r₂ => .ok (e, r₂)

/-- At the end of the source the fault is at its end. -/
theorem primary_nil (stop : Nat) : primary stop [] = .error (.fault ⟨stop, .unexpectedEnd⟩) := by
  rw [primary, Expr.primary]
  rfl

/-- The first lexeme of an operand decides what it is. Lexemes that begin nothing are faults where
they stand. -/
theorem primary_cons (stop : Nat) (t : Lexeme) (rest : List Lexeme) :
    primary stop (t :: rest) =
      match t.token with
      | .number x => .ok (.literal (.number x), rest)
      | .text s => .ok (.literal (.text s), rest)
      | .state s => .ok (.state s, rest)
      | .name s => named stop s rest
      | .mark .openParen => parenthesized stop rest
      | .mark m => .error (.fault ⟨t.position, .unexpected (.mark m)⟩) := by
  simp only [primary, named, call, parenthesized, arguments, conditional, behind?]
  rw [Expr.primary]
  obtain ⟨token, position⟩ := t
  cases token with
  | number x => rfl
  | text s => rfl
  | state s => rfl
  | name s =>
    dsimp only
    obtain _ | v := keyword? s
    · dsimp only
      obtain _ | ⟨r₂, h₂⟩ := skip? .openParen rest
      · rfl
      · dsimp only [Option.map]
        obtain _ | ⟨r₃, h₃⟩ := skip? .closeParen r₂
        · dsimp only
          obtain fragment | ⟨args, r₃, h₃⟩ := Expr.arguments stop r₂ <;> rfl
        · rfl
    · rfl
  | mark m =>
    cases m with
    | openParen =>
      dsimp only
      obtain fragment | ⟨e, r₂, h₂⟩ := conditional? stop rest
      · rfl
      · dsimp only [bare, Except.bind]
        obtain _ | ⟨r₃, h₃⟩ := skip? .closeParen r₂ <;> rfl
    | _ => rfl

/-- An argument, and then a comma with the others behind it or the closing parenthesis. There is no
empty list of arguments here; a call without any is read by itself. -/
theorem arguments_eq (stop : Nat) (ts : List Lexeme) :
    arguments stop ts =
      (conditional stop ts).bind fun (e, r₁) =>
        match behind? .comma r₁ with
        | some r₂ =>
          match arguments stop r₂ with
          | .error fragment => .error (.after e fragment)
          | .ok (args, r₃) => .ok (e :: args, r₃)
        | none =>
          match behind? .closeParen r₁ with
          | some r₂ => .ok ([e], r₂)
          | none => .error (.after e (expectedFault stop .closeParenOrComma r₁)) := by
  simp only [arguments, conditional, behind?]
  rw [Expr.arguments]
  obtain fragment | ⟨e, r₁, h₁⟩ := conditional? stop ts
  · rfl
  · dsimp only [bare, Except.bind]
    obtain _ | ⟨r₂, h₂⟩ := skip? .comma r₁
    · dsimp only [Option.map]
      obtain _ | ⟨r₂, h₂⟩ := skip? .closeParen r₁ <;> rfl
    · dsimp only [Option.map]
      obtain fragment | ⟨args, r₃, h₃⟩ := Expr.arguments stop r₂ <;> rfl

/-- A whole source is a phrase with nothing behind it. What is left over is a fault behind the
tree. -/
theorem parse_cons (stop : Nat) (t : Lexeme) (rest : List Lexeme) :
    parse stop (t :: rest) =
      (conditional stop (t :: rest)).bind fun (e, more) =>
        match more with
        | [] => .ok e
        | u :: _ => .error (.after e (.fault ⟨u.position, .unexpected u.token⟩)) := by
  rw [parse, if_neg (by simp), conditional]
  obtain fragment | ⟨e, _ | ⟨u, more⟩, h₁⟩ := conditional? stop (t :: rest) <;> rfl

/-! ### Induction along the descent -/

/-- What holds of every function of the parser where it holds of the calls that the function makes
holds of all conditionals and chains. Only a call behind a lexeme that was read goes back up. -/
theorem induction (ofConditional : List Lexeme → Prop)
    (ofChained : Option Level → List Lexeme → Prop) (ofChain : Level → Expr → List Lexeme → Prop)
    (ofUnary ofPrimary ofArguments : List Lexeme → Prop)
    (conditional : ∀ ts, ofChained (some .disjunction) ts →
      (∀ rest, rest.length < ts.length → ofConditional rest) → ofConditional ts)
    (below : ∀ ts, ofUnary ts → ofChained none ts)
    (chained : ∀ level ts, ofChained level.tighter ts →
      (∀ left rest, rest.length < ts.length → ofChain level left rest) →
      ofChained (some level) ts)
    (chain : ∀ level left ts,
      (∀ rest, rest.length < ts.length → ofChained level.tighter rest) →
      (∀ left rest, rest.length < ts.length → ofChain level left rest) → ofChain level left ts)
    (unary : ∀ ts, (∀ rest, rest.length < ts.length → ofUnary rest) → ofPrimary ts → ofUnary ts)
    (primary : ∀ ts, (∀ rest, rest.length < ts.length → ofConditional rest) →
      (∀ rest, rest.length < ts.length → ofArguments rest) → ofPrimary ts)
    (arguments : ∀ ts, ofConditional ts →
      (∀ rest, rest.length < ts.length → ofArguments rest) → ofArguments ts)
    (ts : List Lexeme) : ofConditional ts ∧ ∀ level, ofChained level ts := by
  suffices hall : ∀ n (ts : List Lexeme), ts.length = n →
      ofConditional ts ∧ (∀ level, ofChained level ts) ∧ (∀ level left, ofChain level left ts) ∧
        ofUnary ts ∧ ofArguments ts from ⟨(hall _ ts rfl).1, (hall _ ts rfl).2.1⟩
  intro n
  induction n using Nat.strongRecOn with
  | ind n ih =>
    rintro ts rfl
    -- what follows an operator is shorter, so chains need nothing of the input itself
    have hchain : ∀ level left, ofChain level left ts := fun level left =>
      chain level left ts (fun rest hlt => (ih _ hlt rest rfl).2.1 _)
        fun left rest hlt => (ih _ hlt rest rfl).2.2.1 _ _
    have hprimary : ofPrimary ts :=
      primary ts (fun rest hlt => (ih _ hlt rest rfl).1) fun rest hlt =>
        (ih _ hlt rest rfl).2.2.2.2
    have hunary : ofUnary ts := unary ts (fun rest hlt => (ih _ hlt rest rfl).2.2.2.1) hprimary
    -- from the tightest level up to the loosest
    have hstep : ∀ level : Level, ofChained level.tighter ts → ofChained (some level) ts :=
      fun level htighter => chained level ts htighter fun left rest hlt =>
        (ih _ hlt rest rfl).2.2.1 _ _
    have hchained : ∀ level, ofChained level ts := by
      have hbelow : ofChained none ts := below ts hunary
      have hproduct := hstep .product hbelow
      have hsum := hstep .sum hproduct
      have horder := hstep .order hsum
      have hequality := hstep .equality horder
      have hconjunction := hstep .conjunction hequality
      have hdisjunction := hstep .disjunction hconjunction
      rintro (_ | _ | _ | _ | _ | _ | _) <;> assumption
    have hconditional : ofConditional ts :=
      conditional ts (hchained _) fun rest hlt => (ih _ hlt rest rfl).1
    exact ⟨hconditional, hchained, hchain, hunary, arguments ts hconditional fun rest hlt =>
      (ih _ hlt rest rfl).2.2.2.2⟩

end Descent

end ProcedureChart.Expr
