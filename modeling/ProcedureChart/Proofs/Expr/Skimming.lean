import ProcedureChart.Proofs.Expr.OnePass

/-!
# The pass where nothing is asked for

Where no value is asked for, the pass takes from its input what the parser takes, and fails where
the parser finds a fault, with that fault. Neither depends on the context or on the placeholders
that stand for values.
-/

namespace ProcedureChart.Expr

variable {α β : Type} {c : Context} {stop : Nat} {ts : List Lexeme}

/-- The pass comes to the fault of the parser, or leaves unread what the parser leaves. -/
def Skims (parsed : Except Fragment (α × List Lexeme))
    (passed : Except EvalError (β × List Lexeme)) : Prop :=
  (∃ fragment, parsed = .error fragment ∧ passed = .error (.malformed fragment.syntaxError)) ∨
    ∃ a v rest, parsed = .ok (a, rest) ∧ passed = .ok (v, rest)

/-- The pass ends with the fault of the parser. What the parser had read in front of it does not
count where no values are asked for. -/
theorem Skims.stops {fragment : Fragment} {error : SyntaxError}
    (h : fragment.syntaxError = error) :
    Skims (.error fragment : Except Fragment (α × List Lexeme))
      (.error (.malformed error) : Except EvalError (β × List Lexeme)) := by
  rw [← h]
  exact .inl ⟨fragment, rfl, rfl⟩

/-- Both have read the same lexemes, whatever they made of them. -/
theorem Skims.reads (a : α) (v : β) (rest : List Lexeme) :
    Skims (.ok (a, rest)) (.ok (v, rest)) :=
  .inr ⟨a, v, rest, rfl, rfl⟩

theorem Skims.map {α' β' : Type} {parsed : Except Fragment (α × List Lexeme)}
    {passed : Except EvalError (β × List Lexeme)} (h : Skims parsed passed) (f : α → α')
    (g : β → β') : Skims (parsed.map (Prod.map f id)) (passed.map (Prod.map g id)) := by
  obtain ⟨fragment, rfl, rfl⟩ | ⟨a, v, rest, rfl, rfl⟩ := h
  · exact .stops rfl
  · exact .reads (f a) (g v) rest

/-- What is read next is skimmed wherever it begins. -/
theorem Skims.bind {α' β' : Type} {parsed : Except Fragment (α × List Lexeme)}
    {passed : Except EvalError (β × List Lexeme)}
    {f : α × List Lexeme → Except Fragment (α' × List Lexeme)}
    {g : β × List Lexeme → Except EvalError (β' × List Lexeme)} (h : Skims parsed passed)
    (hnext : ∀ a v rest, parsed = .ok (a, rest) → Skims (f (a, rest)) (g (v, rest))) :
    Skims (parsed.bind f) (passed.bind g) := by
  obtain ⟨fragment, rfl, rfl⟩ | ⟨a, v, rest, rfl, rfl⟩ := h
  · exact .stops rfl
  · exact hnext a v rest rfl

namespace OnePass

/-- Both branches are skimmed, whichever of them the placeholder for the condition would choose.
Neither is live, since the conditional is not. -/
theorem skims_branches {condition : Expr} (v : Value)
    (hconditional : ∀ rest, rest.length ≤ ts.length →
      Skims (Descent.conditional stop rest) (conditional c stop false rest)) :
    Skims (Descent.branches stop condition ts) (branches c stop false v ts) := by
  rw [Descent.branches, branches, Bool.false_and, Bool.false_and]
  obtain ⟨fragment, hread, hpass⟩ | ⟨whenTrue, w, r₁, hread, hpass⟩ :=
    hconditional ts (Nat.le_refl _)
  · rw [hread, hpass]
    exact .stops rfl
  · have hlength := Descent.length_of_conditional hread
    rw [hread, hpass]
    dsimp only
    cases hcolon : behind? .colon r₁ with
    | none => exact .stops rfl
    | some r₂ =>
      have hlength' := Descent.length_of_behind hcolon
      obtain ⟨fragment, hread', hpass'⟩ | ⟨whenFalse, u, r₃, hread', hpass'⟩ :=
        hconditional r₂ (by omega)
      · dsimp only
        rw [hread', hpass']
        exact .stops rfl
      · dsimp only
        rw [hread', hpass']
        exact .reads _ _ r₃

/-- A condition and its branches, if a question mark stands behind it. The value `v` of the
condition is a placeholder here. -/
theorem skims_conditional
    (hchained : Skims (Descent.chained stop (some .disjunction) ts)
      (chained c stop false (some .disjunction) ts))
    (hshorter : ∀ rest, rest.length < ts.length →
      Skims (Descent.conditional stop rest) (conditional c stop false rest)) :
    Skims (Descent.conditional stop ts) (conditional c stop false ts) := by
  rw [Descent.conditional_eq, conditional_eq]
  refine hchained.bind fun condition v r₁ hread => ?_
  have hlength := Descent.length_of_chained hread
  dsimp only
  cases hquestion : behind? .question r₁ with
  | none => exact .reads condition v r₁
  | some r₂ =>
    have hlength' := Descent.length_of_behind hquestion
    exact skims_branches v fun rest hle => hshorter rest (by omega)

/-- One level of operators: an operand of the next tighter level and its chain, from any placeholder
on. -/
theorem skims_chained {level : Level}
    (htighter : Skims (Descent.chained stop level.tighter ts)
      (chained c stop false level.tighter ts))
    (hchain : ∀ left rest, rest.length < ts.length → ∀ v,
      Skims (Descent.chain stop level left rest) (chain c stop false level v rest)) :
    Skims (Descent.chained stop (some level) ts) (chained c stop false (some level) ts) := by
  rw [Descent.chained_some, chained_some]
  exact htighter.bind fun left v rest hread =>
    hchain left rest (Descent.length_of_chained hread) v

/-- A chain goes on for as long as operators of its level follow. Its right operands are skimmed
even where the placeholder would ask for them. -/
theorem skims_chain {level : Level} {left : Expr} (v : Value)
    (hchained : ∀ rest, rest.length < ts.length →
      Skims (Descent.chained stop level.tighter rest) (chained c stop false level.tighter rest))
    (hchain : ∀ left rest, rest.length < ts.length → ∀ v,
      Skims (Descent.chain stop level left rest) (chain c stop false level v rest)) :
    Skims (Descent.chain stop level left ts) (chain c stop false level v ts) := by
  rw [Descent.chain_eq, chain_eq]
  cases hoperator : behindOperator? level ts with
  | none => exact .reads left v ts
  | some p =>
    obtain ⟨op, r₁⟩ := p
    have hlength := Descent.length_of_behindOperator hoperator
    dsimp only
    -- the right operand is not asked for either, whatever the left one is
    rw [Bool.false_and]
    obtain ⟨fragment, hread, hpass⟩ | ⟨right, w, r₂, hread, hpass⟩ := hchained r₁ hlength
    · rw [hread, hpass]
      exact .stops rfl
    · have hlength' := Descent.length_of_chained hread
      rw [hread, hpass]
      exact hchain _ r₂ (by omega) _

/-- No field is missing, since none is looked for. A point without a name behind it is a fault all
the same. -/
theorem skims_fields (e : Expr) (v : Value) (ts : List Lexeme) :
    Skims (Descent.fields stop e ts) (fields stop false v ts) := by
  induction hn : ts.length using Nat.strongRecOn generalizing e ts with
  | ind n ih =>
    subst hn
    rw [Descent.fields_eq, fields_eq]
    cases hdot : behind? .dot ts with
    | none => exact .reads e v ts
    | some r₁ =>
      have hlength := Descent.length_of_behind hdot
      dsimp only
      cases hname : behindName? r₁ with
      | none => exact .stops rfl
      | some p =>
        obtain ⟨part, r₂⟩ := p
        have hlength' := Descent.length_of_behindName hname
        exact ih r₂.length (by omega) (.field e part) r₂ rfl

theorem skims_unary
    (hshorter : ∀ rest, rest.length < ts.length →
      Skims (Descent.unary stop rest) (unary c stop false rest))
    (hprimary : Skims (Descent.primary stop ts) (primary c stop false ts)) :
    Skims (Descent.unary stop ts) (unary c stop false ts) := by
  rw [Descent.unary_eq, unary_eq]
  cases hnot : behind? .not ts with
  | some rest => exact (hshorter rest (Descent.length_of_behind hnot)).map _ _
  | none =>
    dsimp only
    cases hminus : behind? .minus ts with
    | some rest => exact (hshorter rest (Descent.length_of_behind hminus)).map _ _
    | none => exact hprimary.bind fun e v rest _ => skims_fields e v rest

/-- No function is called, so neither its name nor the number of arguments can be wrong. -/
theorem skims_call {s : String}
    (harguments : Skims (Descent.arguments stop ts) (arguments c stop false ts)) :
    Skims (Descent.call stop s ts) (call c stop false s ts) := by
  rw [Descent.call, call]
  cases behind? .closeParen ts with
  | some rest => exact .reads _ Value.null rest
  | none => exact harguments.bind fun args vs rest _ => .reads _ Value.null rest

/-- No name is looked up, so none is unknown. -/
theorem skims_named {s : String}
    (harguments : ∀ rest, rest.length ≤ ts.length →
      Skims (Descent.arguments stop rest) (arguments c stop false rest)) :
    Skims (Descent.named stop s ts) (named c stop false s ts) := by
  rw [Descent.named, named]
  cases keyword? s with
  | some v => exact .reads _ v ts
  | none =>
    dsimp only
    cases hopen : behind? .openParen ts with
    | none => exact .reads _ Value.null ts
    | some rest =>
      have hlength := Descent.length_of_behind hopen
      exact skims_call (harguments rest (Nat.le_of_lt hlength))

theorem skims_parenthesized
    (hconditional : Skims (Descent.conditional stop ts) (conditional c stop false ts)) :
    Skims (Descent.parenthesized stop ts) (parenthesized c stop false ts) := by
  rw [Descent.parenthesized, parenthesized]
  refine hconditional.bind fun e v r₁ _ => ?_
  dsimp only
  cases behind? .closeParen r₁ with
  | none => exact .stops rfl
  | some r₂ => exact .reads e v r₂

/-- What an operand is depends on its first lexeme alone, here as in the parser. Names and state
variables need not have values. -/
theorem skims_primary
    (hconditional : ∀ rest, rest.length < ts.length →
      Skims (Descent.conditional stop rest) (conditional c stop false rest))
    (harguments : ∀ rest, rest.length < ts.length →
      Skims (Descent.arguments stop rest) (arguments c stop false rest)) :
    Skims (Descent.primary stop ts) (primary c stop false ts) := by
  cases ts with
  | nil =>
    rw [Descent.primary_nil, primary_nil]
    exact .stops rfl
  | cons t rest =>
    rw [Descent.primary_cons, primary_cons]
    cases t.token with
    | number x => exact .reads _ (Value.number x) rest
    | text s => exact .reads _ (Value.text s) rest
    | state s => exact .reads _ Value.null rest
    | name s => exact skims_named fun more hle => harguments more (Nat.lt_succ_of_le hle)
    | mark m =>
      have hinside := hconditional rest (Nat.lt_succ_self _)
      cases m <;> first | exact .stops rfl | exact skims_parenthesized hinside

/-- Arguments are skimmed one by one, up to a lexeme that is no comma. Their number does not matter
until the call is made, which it is not. -/
theorem skims_arguments
    (hconditional : Skims (Descent.conditional stop ts) (conditional c stop false ts))
    (hshorter : ∀ rest, rest.length < ts.length →
      Skims (Descent.arguments stop rest) (arguments c stop false rest)) :
    Skims (Descent.arguments stop ts) (arguments c stop false ts) := by
  rw [Descent.arguments_eq, arguments_eq]
  refine hconditional.bind fun e v r₁ hread => ?_
  have hlength := Descent.length_of_conditional hread
  dsimp only
  cases hcomma : behind? .comma r₁ with
  | some r₂ =>
    have hlength' := Descent.length_of_behind hcomma
    dsimp only
    obtain ⟨fragment, hread', hpass⟩ | ⟨args, vs, r₃, hread', hpass⟩ := hshorter r₂ (by omega)
    · rw [hread', hpass]
      exact .stops rfl
    · rw [hread', hpass]
      exact .reads _ _ r₃
  | none =>
    dsimp only
    cases behind? .closeParen r₁ with
    | some r₂ => exact .reads _ [v] r₂
    | none => exact .stops rfl

/-- Where no value is asked for, the pass does what the parser does. The induction is the same as
for the parser, and the values that come along are arbitrary. -/
theorem skims (c : Context) (stop : Nat) (ts : List Lexeme) :
    Skims (Descent.conditional stop ts) (conditional c stop false ts) ∧
      ∀ level, Skims (Descent.chained stop level ts) (chained c stop false level ts) := by
  refine Descent.induction
    (fun ts => Skims (Descent.conditional stop ts) (conditional c stop false ts))
    (fun level ts => Skims (Descent.chained stop level ts) (chained c stop false level ts))
    (fun level left ts => ∀ v,
      Skims (Descent.chain stop level left ts) (chain c stop false level v ts))
    (fun ts => Skims (Descent.unary stop ts) (unary c stop false ts))
    (fun ts => Skims (Descent.primary stop ts) (primary c stop false ts))
    (fun ts => Skims (Descent.arguments stop ts) (arguments c stop false ts))
    ?_ ?_ ?_ ?_ ?_ ?_ ?_ ts
  · exact fun ts => skims_conditional
  · intro ts hunary
    rwa [Descent.chained_none, chained_none]
  · exact fun level ts => skims_chained
  · exact fun level left ts hchained hchain v => skims_chain v hchained hchain
  · exact fun ts => skims_unary
  · exact fun ts => skims_primary
  · exact fun ts => skims_arguments

end OnePass

end ProcedureChart.Expr
