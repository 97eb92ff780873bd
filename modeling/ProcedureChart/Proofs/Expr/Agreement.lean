import ProcedureChart.Proofs.Expr.Skimming

/-!
# One pass computes what the tree computes

Where its value is asked for, the pass over a phrase returns the value of the tree that the parser
reads, or the error of that tree or fragment, whichever comes first. An error ends the pass at once,
while the parser goes on; what it reads behind such an error cannot hide it (`Fails`). In the parts
whose value is not asked for, the pass does what the parser does (`OnePass.skims`).
-/

namespace ProcedureChart.Expr

variable {α β : Type} {c : Context} {stop : Nat} {ts : List Lexeme} {error : EvalError} {v : Value}

/-! ### Operators -/

/-- The pass asks for a right operand where the left one has not settled the result. -/
theorem Operator.wantsRight_eq (op : Operator) (v : Value) :
    op.wantsRight v = (op.settled? v).isNone := by
  cases op <;> cases h : v.truthy <;> simp [wantsRight, settled?, h]

/-- Where the left operand settles the result, what stands on the right does not count, be it a
value or the stand-in for one that was not asked for. -/
theorem Operator.join_of_settled {op : Operator} {w : Value} (h : op.settled? v = some w)
    (right : Value) : op.join true v right = w := by
  cases op <;> cases htruthy : v.truthy <;> simp_all [settled?, join]

/-- Where it does not, the operator is applied to both operands. -/
theorem Operator.join_of_not_settled {op : Operator} (h : op.settled? v = none) (right : Value) :
    op.join true v right = op.apply v right := by
  cases op <;> cases htruthy : v.truthy <;> simp_all [settled?, join, apply]

/-! ### The value of a tree from the values of its parts -/

theorem eval_field (e : Expr) (part : String) :
    (field e part).eval c = (e.eval c).bind fun v => readField v part := by
  rw [eval]
  rfl

theorem eval_call (function : String) (args : List Expr) :
    (call function args).eval c = (evalAll c args).bind (callFunction function) := by
  rw [eval]
  rfl

theorem eval_negation (e : Expr) :
    (negation e).eval c = (e.eval c).map fun v => .bool !v.truthy := by
  rw [eval]
  cases e.eval c <;> rfl

theorem eval_opposite (e : Expr) :
    (opposite e).eval c = (e.eval c).map fun v => .number (-v.toNumber) := by
  rw [eval]
  cases e.eval c <;> rfl

/-- The value of an operation as the pass computes it: the left operand first, and the right one
only if the left one has not settled the result. -/
theorem eval_binary (op : Operator) (left right : Expr) :
    (binary op left right).eval c = (left.eval c).bind fun v =>
      match op.settled? v with
      | some w => .ok w
      | none => (right.eval c).map (op.apply v) := by
  rw [eval]
  cases left.eval c with
  | error error => rfl
  | ok v =>
    dsimp only [bind, Except.bind]
    cases op.settled? v with
    | some w => rfl
    | none => cases right.eval c <;> rfl

/-- One of the two branches is evaluated, and the other one may fail without anyone noticing. -/
theorem eval_conditional (condition whenTrue whenFalse : Expr) :
    (conditional condition whenTrue whenFalse).eval c = (condition.eval c).bind fun v =>
      if v.truthy then whenTrue.eval c else whenFalse.eval c := by
  rw [eval]
  rfl

/-- Arguments are evaluated from left to right, up to the first error. -/
theorem evalAll_cons (e : Expr) (rest : List Expr) :
    evalAll c (e :: rest) = (e.eval c).bind fun v => (evalAll c rest).map (v :: ·) := by
  rw [evalAll]
  cases e.eval c with
  | error error => rfl
  | ok v => cases evalAll c rest <;> rfl

/-! ### Errors are not hidden -/

/-- What the parser reads fails with an error, or comes to it before its fault. `value` is how what
was read is evaluated. -/
def Fails (c : Context) (value : α → Except EvalError β) (error : EvalError) :
    Except Fragment (α × List Lexeme) → Prop
  | .ok (a, _) => value a = .error error
  | .error fragment => fragment.error c = error

/-- If the operand in front of a chain fails, so does the chain, or it comes to this error before
the fault in one of its operands. -/
theorem fails_chain {level : Level} {left : Expr} (h : left.eval c = .error error) :
    Fails c (eval c) error (Descent.chain stop level left ts) := by
  induction hn : ts.length using Nat.strongRecOn generalizing left ts with
  | ind n ih =>
    subst hn
    rw [Descent.chain_eq]
    cases hoperator : behindOperator? level ts with
    | none => exact h
    | some p =>
      obtain ⟨op, r₁⟩ := p
      have hlength := Descent.length_of_behindOperator hoperator
      dsimp only
      cases hright : Descent.chained stop level.tighter r₁ with
      | error fragment =>
        dsimp only [Fails]
        rw [Fragment.error, h]
      | ok p =>
        obtain ⟨right, r₂⟩ := p
        have hlength' := Descent.length_of_chained hright
        -- the operand that fails becomes the left operand of a larger one
        have hbinary : (binary op left right).eval c = .error error := by
          rw [eval_binary, h]
          rfl
        exact ih r₂.length (by omega) hbinary rfl

/-- If a value cannot be computed, then none of its fields can, however many are asked for. The
error is always that of the value, not one about a field. -/
theorem fails_fields {e : Expr} (h : e.eval c = .error error) :
    Fails c (eval c) error (Descent.fields stop e ts) := by
  induction hn : ts.length using Nat.strongRecOn generalizing e ts with
  | ind n ih =>
    subst hn
    rw [Descent.fields_eq]
    cases hdot : behind? .dot ts with
    | none => exact h
    | some r₁ =>
      have hlength := Descent.length_of_behind hdot
      dsimp only
      cases hname : behindName? r₁ with
      | none =>
        dsimp only [Fails]
        rw [Fragment.error, h]
      | some p =>
        obtain ⟨part, r₂⟩ := p
        have hlength' := Descent.length_of_behindName hname
        have hfield : (field e part).eval c = .error error := by
          rw [eval_field, h]
          rfl
        exact ih r₂.length (by omega) hfield rfl

/-- If a condition fails, it does not matter what its branches are, or whether they can be read. The
reader may well find a fault there, but the condition comes first. -/
theorem fails_branches {condition : Expr} (h : condition.eval c = .error error) :
    Fails c (eval c) error (Descent.branches stop condition ts) := by
  rw [Descent.branches]
  cases Descent.conditional stop ts with
  | error fragment =>
    dsimp only [Fails]
    rw [Fragment.error, h]
  | ok p =>
    dsimp only
    cases behind? .colon p.2 with
    | none =>
      dsimp only [Fails]
      rw [Fragment.error, h]
    | some r₂ =>
      dsimp only
      cases Descent.conditional stop r₂ with
      | error fragment =>
        dsimp only [Fails]
        rw [Fragment.error, h]
      | ok p =>
        dsimp only [Fails]
        rw [eval_conditional, h]
        rfl

/-- The first branch fails, and it is taken. So its error is the error of the whole, even where the
reader stumbles over the colon or the second branch. -/
theorem fails_branches_taken {condition : Expr} (h : condition.eval c = .ok v)
    (htruthy : v.truthy = true)
    (hfails : Fails c (eval c) error (Descent.conditional stop ts)) :
    Fails c (eval c) error (Descent.branches stop condition ts) := by
  rw [Descent.branches]
  generalize Descent.conditional stop ts = parsed at hfails ⊢
  obtain fragment | ⟨whenTrue, r₁⟩ := parsed
  · dsimp only [Fails] at hfails ⊢
    simp only [Fragment.error, h, htruthy, if_true, hfails]
  · dsimp only [Fails] at hfails ⊢
    cases behind? .colon r₁ with
    | none => simp only [Fragment.error, h, htruthy, if_true, hfails]
    | some r₂ =>
      dsimp only
      obtain fragment | ⟨whenFalse, r₃⟩ := Descent.conditional stop r₂
      · simp only [Fragment.error, h, htruthy, if_true, hfails]
      · dsimp only
        rw [eval_conditional, h]
        dsimp only [Except.bind]
        rw [if_pos htruthy, hfails]

/-! ### The pass where values are asked for -/

/-- The pass returns the error of what the parser reads, or its value and what the parser leaves
unread. -/
def Computes (c : Context) (value : α → Except EvalError β)
    (parsed : Except Fragment (α × List Lexeme)) (passed : Except EvalError (β × List Lexeme)) :
    Prop :=
  (∃ error, Fails c value error parsed ∧ passed = .error error) ∨
    ∃ a v rest, parsed = .ok (a, rest) ∧ value a = .ok v ∧ passed = .ok (v, rest)

section Computes

variable {value : α → Except EvalError β} {parsed : Except Fragment (α × List Lexeme)}

/-- The pass ends with an error to which what the parser reads comes as well. -/
theorem Computes.failure (h : Fails c value error parsed) :
    Computes c value parsed (.error error) :=
  .inl ⟨error, h, rfl⟩

/-- The pass ends with the value of what the parser reads, at the same lexeme. -/
theorem Computes.success {a : α} {w : β} (h : value a = .ok w) (rest : List Lexeme) :
    Computes c value (.ok (a, rest)) (.ok (w, rest)) :=
  .inr ⟨a, w, rest, rfl, h, rfl⟩

/-- The value of a tree is all that is left to compute. -/
theorem Computes.of_map (a : α) (rest : List Lexeme) :
    Computes c value (.ok (a, rest)) ((value a).map (·, rest)) := by
  cases h : value a with
  | error error => exact .failure h
  | ok v => exact .success h rest

/-- An operation on trees that computes from the value of the tree alone. -/
theorem Computes.map {f : α → α} {g : β → β} {passed : Except EvalError (β × List Lexeme)}
    (h : Computes c value parsed passed) (hvalue : ∀ a, value (f a) = (value a).map g) :
    Computes c value (parsed.map (Prod.map f id)) (passed.map (Prod.map g id)) := by
  obtain ⟨error, hfails, rfl⟩ | ⟨a, v, rest, rfl, ha, rfl⟩ := h
  · refine .failure ?_
    obtain fragment | ⟨a, rest⟩ := parsed
    · exact hfails
    · exact (hvalue a).trans (congrArg (Except.map g) hfails)
  · exact .success ((hvalue a).trans (congrArg (Except.map g) ha)) rest

/-- What is read next computes from the value so far, and does not hide an error so far. Reading
goes on behind an error while the pass stops there, hence the second hypothesis. -/
theorem Computes.bind {α' β' : Type} {value' : α' → Except EvalError β'}
    {passed : Except EvalError (β × List Lexeme)}
    {f : α × List Lexeme → Except Fragment (α' × List Lexeme)}
    {g : β × List Lexeme → Except EvalError (β' × List Lexeme)}
    (h : Computes c value parsed passed)
    (hfails : ∀ error a rest, value a = .error error → Fails c value' error (f (a, rest)))
    (hnext : ∀ a v rest, parsed = .ok (a, rest) → value a = .ok v →
      Computes c value' (f (a, rest)) (g (v, rest))) :
    Computes c value' (parsed.bind f) (passed.bind g) := by
  obtain ⟨error, hparsed, rfl⟩ | ⟨a, v, rest, rfl, ha, rfl⟩ := h
  · refine .failure ?_
    obtain fragment | ⟨a, rest⟩ := parsed
    · exact hparsed
    · exact hfails error a rest hparsed
  · exact hnext a v rest rfl ha

end Computes

namespace OnePass

/-- The first branch is taken; the second one is skimmed. A fault in it counts, its value does
not. -/
theorem computes_branches_taken {condition : Expr} (h : condition.eval c = .ok v)
    (htruthy : v.truthy = true)
    (hconditional : Computes c (eval c) (Descent.conditional stop ts)
      (conditional c stop true ts)) :
    Computes c (eval c) (Descent.branches stop condition ts) (branches c stop true v ts) := by
  rw [branches, htruthy]
  obtain ⟨error, hfails, hpass⟩ | ⟨whenTrue, w, r₁, hread, hvalue, hpass⟩ := hconditional
  · rw [Bool.true_and, hpass]
    exact .failure (fails_branches_taken h htruthy hfails)
  · rw [Descent.branches, Bool.true_and, hread, hpass]
    dsimp only
    cases behind? .colon r₁ with
    | none =>
      refine .failure ?_
      simp only [Fails, Fragment.error, h, htruthy, if_true, hvalue]
      rfl
    | some r₂ =>
      dsimp only
      obtain ⟨fragment, hread', hpass'⟩ | ⟨whenFalse, u, r₃, hread', hpass'⟩ :=
        (skims c stop r₂).1
      · rw [hread', Bool.not_true, Bool.and_false, hpass']
        refine .failure ?_
        simp only [Fails, Fragment.error, h, htruthy, if_true, hvalue]
      · rw [hread', Bool.not_true, Bool.and_false, hpass']
        refine .success ?_ r₃
        rw [eval_conditional, h]
        dsimp only [Except.bind]
        rw [if_pos htruthy, hvalue]
        rfl

/-- The first branch is skimmed; the second one is taken. The hypothesis is about every shorter
rest, because the skimmed branch says where the second one begins. -/
theorem computes_branches_skipped {condition : Expr} (h : condition.eval c = .ok v)
    (htruthy : v.truthy = false)
    (hconditional : ∀ rest, rest.length < ts.length →
      Computes c (eval c) (Descent.conditional stop rest) (conditional c stop true rest)) :
    Computes c (eval c) (Descent.branches stop condition ts) (branches c stop true v ts) := by
  rw [Descent.branches, branches, htruthy, Bool.and_false]
  obtain ⟨fragment, hread, hpass⟩ | ⟨whenTrue, w, r₁, hread, hpass⟩ := (skims c stop ts).1
  · rw [hread, hpass]
    refine .failure ?_
    simp [Fails, Fragment.error, h, htruthy]
  · have hlength := Descent.length_of_conditional hread
    rw [hread, hpass]
    dsimp only
    cases hcolon : behind? .colon r₁ with
    | none =>
      refine .failure ?_
      simp [Fails, Fragment.error, h, htruthy, expectedError, expectedFault, Fragment.syntaxError]
    | some r₂ =>
      have hlength' := Descent.length_of_behind hcolon
      dsimp only
      rw [Bool.not_false, Bool.and_true]
      obtain ⟨error, hfails, hpass'⟩ | ⟨whenFalse, u, r₃, hread', hvalue, hpass'⟩ :=
        hconditional r₂ (by omega)
      · rw [hpass']
        refine .failure ?_
        generalize Descent.conditional stop r₂ = parsed at hfails ⊢
        obtain fragment | ⟨whenFalse, r₃⟩ := parsed
        · dsimp only [Fails] at hfails ⊢
          simp [Fragment.error, h, htruthy, hfails]
        · dsimp only [Fails] at hfails ⊢
          rw [eval_conditional, h]
          simp [Except.bind, htruthy, hfails]
      · rw [hread', hpass']
        refine .success ?_ r₃
        rw [eval_conditional, h]
        simp [Except.bind, htruthy, hvalue]

/-- A condition and its branches. If the condition has a value, this says which branch the pass
computes and which one it only reads. -/
theorem computes_conditional
    (hchained : Computes c (eval c) (Descent.chained stop (some .disjunction) ts)
      (chained c stop true (some .disjunction) ts))
    (hshorter : ∀ rest, rest.length < ts.length →
      Computes c (eval c) (Descent.conditional stop rest) (conditional c stop true rest)) :
    Computes c (eval c) (Descent.conditional stop ts) (conditional c stop true ts) := by
  rw [Descent.conditional_eq, conditional_eq]
  refine hchained.bind ?_ ?_
  · intro error condition r₁ hfails
    dsimp only
    cases behind? .question r₁ with
    | none => exact hfails
    | some r₂ => exact fails_branches hfails
  · intro condition v r₁ hread hvalue
    have hlength := Descent.length_of_chained hread
    dsimp only
    cases hquestion : behind? .question r₁ with
    | none => exact .success hvalue r₁
    | some r₂ =>
      have hlength' := Descent.length_of_behind hquestion
      cases htruthy : v.truthy with
      | true => exact computes_branches_taken hvalue htruthy (hshorter r₂ (by omega))
      | false =>
        exact computes_branches_skipped hvalue htruthy fun rest hlt => hshorter rest (by omega)

/-- One level of operators. The chain takes up the value of its first operand. -/
theorem computes_chained {level : Level}
    (htighter : Computes c (eval c) (Descent.chained stop level.tighter ts)
      (chained c stop true level.tighter ts))
    (hchain : ∀ left rest, rest.length < ts.length → ∀ v, left.eval c = .ok v →
      Computes c (eval c) (Descent.chain stop level left rest) (chain c stop true level v rest)) :
    Computes c (eval c) (Descent.chained stop (some level) ts)
      (chained c stop true (some level) ts) := by
  rw [Descent.chained_some, chained_some]
  refine htighter.bind (fun error left rest => fails_chain) ?_
  intro left v rest hread hvalue
  exact hchain left rest (Descent.length_of_chained hread) v hvalue

/-- A chain goes on from the value so far. An operator whose result is settled by it has its right
operand skimmed, any other one has it computed. -/
theorem computes_chain {level : Level} {left : Expr} (h : left.eval c = .ok v)
    (hchained : ∀ rest, rest.length < ts.length →
      Computes c (eval c) (Descent.chained stop level.tighter rest)
        (chained c stop true level.tighter rest))
    (hchain : ∀ left rest, rest.length < ts.length → ∀ v, left.eval c = .ok v →
      Computes c (eval c) (Descent.chain stop level left rest) (chain c stop true level v rest)) :
    Computes c (eval c) (Descent.chain stop level left ts) (chain c stop true level v ts) := by
  rw [Descent.chain_eq, chain_eq]
  cases hoperator : behindOperator? level ts with
  | none => exact .success h ts
  | some p =>
    obtain ⟨op, r₁⟩ := p
    have hlength := Descent.length_of_behindOperator hoperator
    dsimp only
    rw [Operator.wantsRight_eq, Bool.true_and]
    cases hsettled : op.settled? v with
    | some w =>
      -- the left operand decides; the right one is skimmed
      obtain ⟨fragment, hread, hpass⟩ | ⟨right, u, r₂, hread, hpass⟩ :=
        (skims c stop r₁).2 level.tighter
      · rw [hread, Option.isNone_some, hpass]
        refine .failure ?_
        simp [Fails, Fragment.error, h, hsettled]
      · have hbinary : (binary op left right).eval c = .ok (op.join true v u) := by
          rw [eval_binary, h, Operator.join_of_settled hsettled]
          simp [Except.bind, hsettled]
        have hlength' := Descent.length_of_chained hread
        rw [hread, Option.isNone_some, hpass]
        exact hchain _ r₂ (by omega) _ hbinary
    | none =>
      -- the right operand is asked for
      rw [Option.isNone_none]
      obtain ⟨error, hfails, hpass⟩ | ⟨right, u, r₂, hread, hvalue, hpass⟩ :=
        hchained r₁ hlength
      · rw [hpass]
        refine .failure ?_
        generalize Descent.chained stop level.tighter r₁ = parsed at hfails ⊢
        obtain fragment | ⟨right, r₂⟩ := parsed
        · dsimp only [Fails] at hfails ⊢
          simp [Fragment.error, h, hsettled, hfails]
        · refine fails_chain ?_
          dsimp only [Fails] at hfails
          rw [eval_binary, h]
          simp [Except.bind, Except.map, hsettled, hfails]
      · have hbinary : (binary op left right).eval c = .ok (op.join true v u) := by
          rw [eval_binary, h, Operator.join_of_not_settled hsettled]
          simp [Except.bind, Except.map, hsettled, hvalue]
        have hlength' := Descent.length_of_chained hread
        rw [hread, hpass]
        exact hchain _ r₂ (by omega) _ hbinary

/-- Fields are taken one by one from the value so far, and the pass ends at the first one that the
value does not have. -/
theorem computes_fields {e : Expr} (h : e.eval c = .ok v) (ts : List Lexeme) :
    Computes c (eval c) (Descent.fields stop e ts) (fields stop true v ts) := by
  induction hn : ts.length using Nat.strongRecOn generalizing e v ts with
  | ind n ih =>
    subst hn
    rw [Descent.fields_eq, fields_eq]
    cases hdot : behind? .dot ts with
    | none => exact .success h ts
    | some r₁ =>
      have hlength := Descent.length_of_behind hdot
      dsimp only
      cases hname : behindName? r₁ with
      | none =>
        refine .failure ?_
        simp only [Fails, Fragment.error, h]
      | some p =>
        obtain ⟨part, r₂⟩ := p
        have hlength' := Descent.length_of_behindName hname
        have hfield : (field e part).eval c = readField v part := by
          rw [eval_field, h]
          rfl
        have hproject : project true v part = readField v part := rfl
        dsimp only
        rw [hproject]
        -- a missing field ends the pass; the parser reads on
        cases hread : readField v part with
        | error error => exact .failure (fails_fields (hfield.trans hread))
        | ok w => exact ih r₂.length (by omega) (hfield.trans hread) r₂ rfl

/-- An operand without signs, and the fields behind it. -/
theorem computes_operand
    (hprimary : Computes c (eval c) (Descent.primary stop ts) (primary c stop true ts)) :
    Computes c (eval c) (Descent.operand stop ts) (operand c stop true ts) := by
  rw [Descent.operand, operand]
  exact hprimary.bind (fun error e rest => fails_fields) fun e v rest _ hvalue =>
    computes_fields hvalue rest

/-- An operand with the signs in front of it, which are applied from the inside out. -/
theorem computes_unary
    (hshorter : ∀ rest, rest.length < ts.length →
      Computes c (eval c) (Descent.unary stop rest) (unary c stop true rest))
    (hprimary : Computes c (eval c) (Descent.primary stop ts) (primary c stop true ts)) :
    Computes c (eval c) (Descent.unary stop ts) (unary c stop true ts) := by
  rw [Descent.unary_eq, unary_eq]
  cases hnot : behind? .not ts with
  | some rest => exact (hshorter rest (Descent.length_of_behind hnot)).map eval_negation
  | none =>
    dsimp only
    cases hminus : behind? .minus ts with
    | some rest => exact (hshorter rest (Descent.length_of_behind hminus)).map eval_opposite
    | none => exact computes_operand hprimary

/-- The function of a call is looked up behind its arguments, so that an error in an argument comes
before one about the function. -/
theorem computes_call {s : String}
    (harguments : Computes c (evalAll c) (Descent.arguments stop ts) (arguments c stop true ts)) :
    Computes c (eval c) (Descent.call stop s ts) (call c stop true s ts) := by
  rw [Descent.call, call]
  cases behind? .closeParen ts with
  | some rest =>
    have hcall : (Expr.call s []).eval c = invoke true s [] := by
      rw [eval_call]
      rfl
    dsimp only
    rw [← hcall]
    exact .of_map _ rest
  | none =>
    refine harguments.bind ?_ ?_
    · intro error args rest hfails
      dsimp only [Fails]
      rw [eval_call, hfails]
      rfl
    · intro args vs rest _ hvalue
      have hcall : (Expr.call s args).eval c = invoke true s vs := by
        rw [eval_call, hvalue]
        rfl
      dsimp only
      rw [← hcall]
      exact .of_map _ rest

/-- A name in front of a parenthesis is called, any other one is looked up. Keywords are neither,
also in front of a parenthesis. -/
theorem computes_named {s : String}
    (harguments : ∀ rest, rest.length ≤ ts.length →
      Computes c (evalAll c) (Descent.arguments stop rest) (arguments c stop true rest)) :
    Computes c (eval c) (Descent.named stop s ts) (named c stop true s ts) := by
  rw [Descent.named, named]
  cases keyword? s with
  | some v => exact .of_map (Expr.literal v) ts
  | none =>
    dsimp only
    cases hopen : behind? .openParen ts with
    | none =>
      have hname : (Expr.name s).eval c = resolve true (.unknownName s) (c.lookup s) := by
        rw [eval]
        rfl
      dsimp only
      rw [← hname]
      exact .of_map _ ts
    | some rest =>
      have hlength := Descent.length_of_behind hopen
      exact computes_call (harguments rest (Nat.le_of_lt hlength))

/-- What stands in parentheses is computed by itself. If it has a value but the parenthesis is not
closed, the fault is reported; if it fails, its error is. -/
theorem computes_parenthesized
    (hconditional : Computes c (eval c) (Descent.conditional stop ts)
      (conditional c stop true ts)) :
    Computes c (eval c) (Descent.parenthesized stop ts) (parenthesized c stop true ts) := by
  rw [Descent.parenthesized, parenthesized]
  refine hconditional.bind ?_ ?_
  · intro error e r₁ hfails
    dsimp only
    cases behind? .closeParen r₁ with
    | none => simp only [Fails, Fragment.error, hfails]
    | some r₂ => exact hfails
  · intro e v r₁ _ hvalue
    dsimp only
    cases behind? .closeParen r₁ with
    | none =>
      refine .failure ?_
      simp only [Fails, Fragment.error, hvalue]
      rfl
    | some r₂ => exact .success hvalue r₂

/-- An operand without signs and fields begins with the lexeme that decides on its form. Most forms
are a single lexeme, and their value does not depend on what stands behind it. -/
theorem computes_primary
    (hconditional : ∀ rest, rest.length < ts.length →
      Computes c (eval c) (Descent.conditional stop rest) (conditional c stop true rest))
    (harguments : ∀ rest, rest.length < ts.length →
      Computes c (evalAll c) (Descent.arguments stop rest) (arguments c stop true rest)) :
    Computes c (eval c) (Descent.primary stop ts) (primary c stop true ts) := by
  cases ts with
  | nil =>
    rw [Descent.primary_nil, primary_nil]
    exact .failure rfl
  | cons t rest =>
    rw [Descent.primary_cons, primary_cons]
    cases t.token with
    | number x => exact .of_map (literal (.number x)) rest
    | text s => exact .of_map (literal (.text s)) rest
    | state s =>
      have hstate : (state s).eval c = resolve true (.unknownState s) (c.lookupState s) := by
        rw [eval]
        rfl
      dsimp only
      rw [← hstate]
      exact .of_map _ rest
    | name s => exact computes_named fun more hle => harguments more (Nat.lt_succ_of_le hle)
    | mark m =>
      have hinside := hconditional rest (Nat.lt_succ_self _)
      cases m <;> first | exact .failure rfl | exact computes_parenthesized hinside

/-- Arguments are computed one by one. An error in one of them hides what stands behind it from the
pass, and from the tree as well. -/
theorem computes_arguments
    (hconditional : Computes c (eval c) (Descent.conditional stop ts)
      (conditional c stop true ts))
    (hshorter : ∀ rest, rest.length < ts.length →
      Computes c (evalAll c) (Descent.arguments stop rest) (arguments c stop true rest)) :
    Computes c (evalAll c) (Descent.arguments stop ts) (arguments c stop true ts) := by
  rw [Descent.arguments_eq, arguments_eq]
  refine hconditional.bind ?_ ?_
  · -- the first argument fails, and so does the list, however it goes on
    intro error e r₁ hfails
    have hargs : ∀ args, evalAll c (e :: args) = .error error := fun args => by
      rw [evalAll_cons, hfails]
      rfl
    dsimp only
    cases behind? .comma r₁ with
    | some r₂ =>
      dsimp only
      obtain fragment | ⟨args, r₃⟩ := Descent.arguments stop r₂
      · simp only [Fails, Fragment.error, hfails]
      · exact hargs args
    | none =>
      dsimp only
      cases behind? .closeParen r₁ with
      | some r₂ => exact hargs []
      | none => simp only [Fails, Fragment.error, hfails]
  · intro e v r₁ hread hvalue
    have hlength := Descent.length_of_conditional hread
    dsimp only
    cases hcomma : behind? .comma r₁ with
    | some r₂ =>
      have hlength' := Descent.length_of_behind hcomma
      dsimp only
      obtain ⟨error, hfails, hpass⟩ | ⟨args, vs, r₃, hread', hvalues, hpass⟩ :=
        hshorter r₂ (by omega)
      · rw [hpass]
        refine .failure ?_
        generalize Descent.arguments stop r₂ = parsed at hfails ⊢
        obtain fragment | ⟨args, r₃⟩ := parsed
        · dsimp only [Fails] at hfails ⊢
          simp only [Fragment.error, hvalue, hfails]
        · dsimp only [Fails] at hfails ⊢
          rw [evalAll_cons, hvalue]
          simp only [Except.bind, hfails, Except.map]
      · rw [hread', hpass]
        refine .success ?_ r₃
        rw [evalAll_cons, hvalue]
        simp only [Except.bind, hvalues, Except.map]
    | none =>
      dsimp only
      cases behind? .closeParen r₁ with
      | some r₂ =>
        refine .success ?_ r₂
        rw [evalAll_cons, hvalue]
        rfl
      | none =>
        refine .failure ?_
        simp only [Fails, Fragment.error, hvalue]
        rfl

/-- Where its value is asked for, the pass computes it. The induction is that of the descent, with
one statement for each of its functions; a chain has the value on its left already. -/
theorem computes (c : Context) (stop : Nat) (ts : List Lexeme) :
    Computes c (eval c) (Descent.conditional stop ts) (conditional c stop true ts) := by
  refine (Descent.induction
    (fun ts => Computes c (eval c) (Descent.conditional stop ts) (conditional c stop true ts))
    (fun level ts => Computes c (eval c) (Descent.chained stop level ts)
      (chained c stop true level ts))
    (fun level left ts => ∀ v, left.eval c = .ok v →
      Computes c (eval c) (Descent.chain stop level left ts) (chain c stop true level v ts))
    (fun ts => Computes c (eval c) (Descent.unary stop ts) (unary c stop true ts))
    (fun ts => Computes c (eval c) (Descent.primary stop ts) (primary c stop true ts))
    (fun ts => Computes c (evalAll c) (Descent.arguments stop ts) (arguments c stop true ts))
    ?_ ?_ ?_ ?_ ?_ ?_ ?_ ts).1
  · exact fun ts => computes_conditional
  · intro ts hunary
    rwa [Descent.chained_none, chained_none]
  · exact fun level ts => computes_chained
  · exact fun level left ts hchained hchain v hvalue => computes_chain hvalue hchained hchain
  · exact fun ts => computes_unary
  · exact fun ts => computes_primary
  · exact fun ts => computes_arguments

end OnePass

/-! ### Whole sources -/

/-- Evaluating a source in one pass is evaluating what it reads as. The last case is a value with
more tokens behind it, which is a fault in both. -/
theorem evaluateInOnePass_eq (source : String) (c : Context) :
    evaluateInOnePass source c = evaluate source c := by
  rw [evaluateInOnePass, evaluate, read]
  cases tokenize source with
  | error error => rfl
  | ok ts =>
    dsimp only
    obtain _ | ⟨t, rest⟩ := ts
    · rfl
    · rw [Descent.parse_cons]
      obtain ⟨error, hfails, hpass⟩ | ⟨e, v, more, hread, hvalue, hpass⟩ :=
        OnePass.computes c source.utf8ByteSize (t :: rest)
      · rw [hpass]
        generalize Descent.conditional source.utf8ByteSize (t :: rest) = parsed at hfails ⊢
        obtain fragment | ⟨e, _ | ⟨u, more⟩⟩ := parsed
        · exact congrArg Except.error hfails.symm
        · exact hfails.symm
        · dsimp only [Fails] at hfails
          simp [Except.bind, run, Fragment.error, hfails]
      · rw [hread, hpass]
        obtain _ | ⟨u, more⟩ := more
        · exact hvalue.symm
        · simp [Except.bind, run, Fragment.error, hvalue]

end ProcedureChart.Expr
