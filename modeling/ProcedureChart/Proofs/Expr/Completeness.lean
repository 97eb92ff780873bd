import ProcedureChart.Proofs.Expr.Descent
import ProcedureChart.Proofs.Expr.Grammar

/-!
# Phrases are read

The parser reads every phrase of the grammar as its tree, whatever stands behind the phrase, as
long as it does not continue it. A token continues the phrases of all rungs that are at most as
loose as the token is (`Token.grip`).

Where a phrase has a phrase of its own rung on the left, the parser has read the left part when it
comes to the rest. So for chains and fields the statement is that reading the phrase leads to the
loop of that rung with the tree of the phrase in hand.
-/

namespace ProcedureChart.Expr

/-! ### What continues a phrase -/

/-- How tightly a token continues what stands in front of it: a parenthesis makes a call of a name,
a point takes a field, an operator takes what its level takes. Tokens that continue nothing come
last. -/
def Token.grip : Token → Nat
  | .mark .openParen => 0
  | .mark .dot => 1
  | .mark .question => 8
  | .mark m =>
    match Operator.ofMark? m with
    | some op => looseness (some op.level) + 1
    | none => 9
  | _ => 9

/-- The next lexeme, if any, does not continue phrases up to a limit. -/
def Ends (limit : Nat) (rest : List Lexeme) : Prop := ∀ t ∈ rest.head?, limit < t.token.grip

variable {stop limit : Nat} {ts us rest : List Lexeme} {t : Lexeme} {e : Expr}

theorem ends_nil : Ends limit [] := fun _ h => by cases h

theorem ends_cons (h : limit < t.token.grip) : Ends limit (t :: rest) := by
  intro u hu
  cases hu
  exact h

/-- What does not continue looser phrases does not continue tighter ones. -/
theorem Ends.mono {tighter : Nat} (h : Ends limit rest) (hle : tighter ≤ limit) :
    Ends tighter rest :=
  fun t ht => Nat.lt_of_le_of_lt hle (h t ht)

/-- An operator continues the phrases of its own level and of all tighter ones. -/
theorem Token.grip_mark (op : Operator) :
    (Token.mark op.mark).grip = looseness (some op.level) + 1 := by
  cases op <;> rfl

/-- A mark that would continue a phrase does not stand behind it. -/
theorem Ends.behind?_eq_none {m : Mark} (h : Ends limit rest)
    (hm : (Token.mark m).grip ≤ limit) : behind? m rest = none := by
  refine Option.eq_none_iff_forall_ne_some.2 fun more hmore => ?_
  obtain ⟨t, htoken, rfl⟩ := behind?_eq_some.1 hmore
  have hlt := h t rfl
  rw [htoken] at hlt
  omega

/-- The chain of a level is over where no operator of the level stands behind it. -/
theorem Ends.behindOperator?_eq_none {level : Level}
    (h : Ends (looseness (some level) + 1) rest) : behindOperator? level rest = none := by
  refine Option.eq_none_iff_forall_ne_some.2 fun ⟨op, more⟩ hmore => ?_
  obtain ⟨t, htoken, rfl, rfl⟩ := behindOperator?_eq_some.1 hmore
  have hlt := h t rfl
  rw [htoken, Token.grip_mark] at hlt
  omega

theorem behind?_of_token {m : Mark} (h : t.token = .mark m) : behind? m (t :: rest) = some rest :=
  behind?_eq_some.2 ⟨t, h, rfl⟩

theorem behind?_of_token_ne {m : Mark} (h : t.token ≠ .mark m) : behind? m (t :: rest) = none := by
  rw [behind?_cons, if_neg h]

/-! ### The rules of the grammar, one by one -/

namespace Descent

/-- The parser reads the phrase with the tree `e` that some lexemes are. -/
def Complete (stop : Nat) : Rung → List Lexeme → Expr → Prop
  | .primary, ts, e | .operand, ts, e =>
    ∀ rest, Ends 0 rest → unary stop (ts ++ rest) = fields stop e rest
  | .unary, ts, e => ∀ rest, Ends 1 rest → unary stop (ts ++ rest) = .ok (e, rest)
  | .chain level, ts, e =>
    ∀ rest, Ends (looseness level.tighter + 1) rest →
      chained stop (some level) (ts ++ rest) = chain stop level e rest
  | .conditional, ts, e => ∀ rest, Ends 8 rest → conditional stop (ts ++ rest) = .ok (e, rest)

/-- The parser reads the arguments that some lexemes are. -/
def CompleteArguments (stop : Nat) (ts : List Lexeme) (args : List Expr) : Prop :=
  ∀ rest, arguments stop (ts ++ rest) = .ok (args, rest)

/-- An operand that begins without a sign is a primary and its fields. -/
theorem unary_of_primary (hnot : t.token ≠ .mark .not) (hminus : t.token ≠ .mark .minus)
    (hprimary : primary stop (t :: ts) = .ok (e, rest)) :
    unary stop (t :: ts) = fields stop e rest := by
  rw [unary_eq, behind?_of_token_ne hnot, behind?_of_token_ne hminus]
  dsimp only [operand]
  rw [hprimary]
  rfl

/-- Behind a phrase of a level that nothing continues, the loop of the level ends. -/
theorem Complete.chained {level : Option Level} (h : Complete stop (.ofLevel level) ts e)
    (hrest : Ends (looseness level + 1) rest) :
    chained stop level (ts ++ rest) = .ok (e, rest) := by
  cases level with
  | none =>
    rw [chained_none]
    exact h rest hrest
  | some level =>
    have htighter := looseness_tighter level
    rw [h rest (hrest.mono (by omega)), chain_eq, hrest.behindOperator?_eq_none]

/-- A token that is an operand whatever stands behind it. -/
theorem complete_operand (hnot : t.token ≠ .mark .not) (hminus : t.token ≠ .mark .minus)
    (hprimary : ∀ rest, primary stop (t :: rest) = .ok (e, rest)) :
    Complete stop .primary [t] e :=
  fun rest _ => unary_of_primary hnot hminus (hprimary rest)

/-- A name without a parenthesis behind it is the whole operand. -/
theorem complete_name {s : String} (ht : t.token = .name s) (hs : keyword? s = none) :
    Complete stop .primary [t] (.name s) := by
  intro rest hrest
  rw [List.singleton_append]
  refine unary_of_primary (by simp [ht]) (by simp [ht]) ?_
  rw [primary_cons, ht]
  dsimp only [named]
  rw [hs, hrest.behind?_eq_none (m := .openParen) (Nat.le_refl 0)]

/-- A word for a value is this value, and a parenthesis behind it makes no call. -/
theorem complete_keyword {s : String} {v : Value} (ht : t.token = .name s)
    (hs : keyword? s = some v) : Complete stop .primary [t] (.literal v) := by
  refine complete_operand (by simp [ht]) (by simp [ht]) fun rest => ?_
  rw [primary_cons, ht]
  dsimp only [named]
  rw [hs]

/-- The parser looks for the closing parenthesis before it reads any arguments. -/
theorem call_of_close {s : String} {close : Lexeme} (hclose : close.token = .mark .closeParen)
    (rest : List Lexeme) : call stop s ([close] ++ rest) = .ok (.call s [], rest) := by
  rw [call, List.singleton_append, behind?_of_token hclose]

/-- An operand that cannot be read fails on all levels. -/
theorem chained_of_unary {fragment : Fragment} (h : unary stop ts = .error fragment)
    (level : Option Level) : chained stop level ts = .error fragment := by
  rcases level with _ | _ | _ | _ | _ | _ | _ <;>
    simp only [chained_some, Level.tighter, chained_none, h, Except.bind]

/-- No argument begins with a closing parenthesis. -/
theorem behind?_close_of_arguments {args : List Expr} (h : arguments stop ts = .ok (args, rest)) :
    behind? .closeParen ts = none := by
  refine Option.eq_none_iff_forall_ne_some.2 fun more hmore => ?_
  obtain ⟨t, ht, rfl⟩ := behind?_eq_some.1 hmore
  have hunary : unary stop (t :: more) =
      .error (.fault ⟨t.position, .unexpected (.mark .closeParen)⟩) := by
    rw [unary_eq, behind?_of_token_ne (by simp [ht]), behind?_of_token_ne (by simp [ht])]
    dsimp only [operand]
    rw [primary_cons, ht]
    rfl
  rw [arguments_eq, conditional_eq, chained_of_unary hunary] at h
  cases h

/-- A call with arguments is read up to its closing parenthesis, which the reader of arguments
takes. -/
theorem call_of_arguments {s : String} {args : List Expr}
    (h : CompleteArguments stop ts args) (rest : List Lexeme) :
    call stop s (ts ++ rest) = .ok (.call s args, rest) := by
  rw [call, behind?_close_of_arguments (h rest)]
  dsimp only
  rw [h rest]
  rfl

/-- A call, with or without arguments, is read as what stands behind its opening parenthesis. -/
theorem complete_call {s : String} {paren : Lexeme} (ht : t.token = .name s)
    (hparen : paren.token = .mark .openParen) (hs : keyword? s = none)
    (hcall : ∀ rest, call stop s (ts ++ rest) = .ok (e, rest)) :
    Complete stop .primary (t :: paren :: ts) e := by
  intro rest hrest
  rw [List.cons_append, List.cons_append]
  refine unary_of_primary (by simp [ht]) (by simp [ht]) ?_
  rw [primary_cons, ht]
  dsimp only [named]
  rw [hs, behind?_of_token hparen]
  exact hcall rest

/-- Parentheses leave no trace in the tree. What they hold may be looser than anything around
them. -/
theorem complete_parens {close : Lexeme} (ht : t.token = .mark .openParen)
    (hclose : close.token = .mark .closeParen) (h : Complete stop .conditional ts e) :
    Complete stop .primary (t :: (ts ++ [close])) e := by
  intro rest hrest
  rw [List.cons_append]
  refine unary_of_primary (by simp [ht]) (by simp [ht]) ?_
  have hinside : conditional stop (ts ++ [close] ++ rest) = .ok (e, close :: rest) := by
    rw [List.append_assoc]
    exact h (close :: rest) (ends_cons (by simp [hclose, Token.grip, Operator.ofMark?]))
  rw [primary_cons, ht]
  dsimp only [parenthesized]
  rw [hinside]
  dsimp only [Except.bind]
  rw [behind?_of_token hclose]

/-- A field goes on the loop over fields, with the operand in front of it in hand. -/
theorem complete_field {dot : Lexeme} {part : String} (hdot : dot.token = .mark .dot)
    (ht : t.token = .name part) (h : Complete stop .operand ts e) :
    Complete stop .operand (ts ++ [dot, t]) (.field e part) := by
  intro rest hrest
  have hends : Ends 0 (dot :: t :: rest) := ends_cons (by simp [hdot, Token.grip])
  have hloop : unary stop (ts ++ [dot, t] ++ rest) = fields stop e (dot :: t :: rest) := by
    rw [List.append_assoc]
    exact h _ hends
  rw [hloop, fields_eq, behind?_of_token hdot]
  dsimp only
  rw [behindName?_eq_some.2 ⟨t, ht, rfl⟩]

/-- Without a point behind it, the loop over fields ends and an operand is complete. -/
theorem complete_unsigned (h : Complete stop .operand ts e) : Complete stop .unary ts e := by
  intro rest hrest
  rw [h rest (hrest.mono (Nat.zero_le 1)), fields_eq,
    hrest.behind?_eq_none (m := .dot) (Nat.le_refl 1)]

/-- A negation takes an operand of its own rung, so signs may stand one behind the other. -/
theorem complete_negation (ht : t.token = .mark .not) (h : Complete stop .unary ts e) :
    Complete stop .unary (t :: ts) (.negation e) := by
  intro rest hrest
  rw [List.cons_append, unary_eq, behind?_of_token ht]
  dsimp only
  rw [h rest hrest]
  rfl

theorem complete_opposite (ht : t.token = .mark .minus) (h : Complete stop .unary ts e) :
    Complete stop .unary (t :: ts) (.opposite e) := by
  intro rest hrest
  rw [List.cons_append, unary_eq, behind?_of_token_ne (by simp [ht]), behind?_of_token ht]
  dsimp only
  rw [h rest hrest]
  rfl

/-- A phrase of a tighter level is the first operand of a chain, and the loop of the chain has it in
hand. -/
theorem complete_single {level : Level} (h : Complete stop (.ofLevel level.tighter) ts e) :
    Complete stop (.chain level) ts e := by
  intro rest hrest
  rw [chained_some, h.chained hrest]
  rfl

/-- The loop of a level goes on: it has read its left operand, finds the operator and reads the
right one on the level that binds tighter. This is what makes operators of one level group to the
left. -/
theorem complete_binary {op : Operator} {left right : Expr} (ht : t.token = .mark op.mark)
    (hleft : Complete stop (.chain op.level) ts left)
    (hright : Complete stop (.ofLevel op.level.tighter) us right) :
    Complete stop (.chain op.level) (ts ++ t :: us) (.binary op left right) := by
  intro rest hrest
  -- the operator ends its left operand as far as tighter levels go, and no further
  have hgrip : looseness op.level.tighter + 1 < t.token.grip := by
    rw [ht, Token.grip_mark]
    exact Nat.succ_lt_succ (looseness_tighter op.level)
  rw [List.append_assoc, List.cons_append, hleft _ (ends_cons hgrip), chain_eq]
  rw [behindOperator?_eq_some.2 ⟨t, ht, rfl, rfl⟩]
  dsimp only
  rw [hright.chained hrest]

/-- A chain without a question mark behind it is the whole phrase. -/
theorem complete_unconditional (h : Complete stop (.chain .disjunction) ts e) :
    Complete stop .conditional ts e := by
  intro rest hrest
  have hchained : Descent.chained stop (some .disjunction) (ts ++ rest) = .ok (e, rest) :=
    Complete.chained h (hrest.mono (by decide))
  rw [conditional_eq, hchained]
  dsimp only [Except.bind]
  rw [hrest.behind?_eq_none (m := .question) (Nat.le_refl 8)]

/-- Both branches are whole phrases, so the second one extends as far as it can, and conditionals
group to the right. -/
theorem complete_conditional {question colon : Lexeme} {vs : List Lexeme}
    {condition whenTrue whenFalse : Expr} (hquestion : question.token = .mark .question)
    (hcolon : colon.token = .mark .colon)
    (hcondition : Complete stop (.chain .disjunction) ts condition)
    (hwhenTrue : Complete stop .conditional us whenTrue)
    (hwhenFalse : Complete stop .conditional vs whenFalse) :
    Complete stop .conditional (ts ++ question :: (us ++ colon :: vs))
      (.conditional condition whenTrue whenFalse) := by
  intro rest hrest
  have hchained : Descent.chained stop (some .disjunction)
      (ts ++ question :: (us ++ colon :: (vs ++ rest))) =
        .ok (condition, question :: (us ++ colon :: (vs ++ rest))) := by
    refine Complete.chained hcondition (ends_cons ?_)
    rw [hquestion]
    decide
  have htrue : conditional stop (us ++ colon :: (vs ++ rest)) =
      .ok (whenTrue, colon :: (vs ++ rest)) := by
    refine hwhenTrue _ (ends_cons ?_)
    rw [hcolon]
    decide
  rw [List.append_assoc, List.cons_append, List.append_assoc, List.cons_append, conditional_eq,
    hchained]
  dsimp only [Except.bind]
  rw [behind?_of_token hquestion]
  dsimp only [branches]
  rw [htrue]
  dsimp only
  rw [behind?_of_token hcolon]
  dsimp only
  rw [hwhenFalse rest hrest]

/-- The closing parenthesis ends the last argument and the call. -/
theorem complete_last {close : Lexeme} (hclose : close.token = .mark .closeParen)
    (h : Complete stop .conditional ts e) : CompleteArguments stop (ts ++ [close]) [e] := by
  intro rest
  have hinside : conditional stop (ts ++ [close] ++ rest) = .ok (e, close :: rest) := by
    rw [List.append_assoc]
    exact h (close :: rest) (ends_cons (by simp [hclose, Token.grip, Operator.ofMark?]))
  rw [arguments_eq, hinside]
  dsimp only [Except.bind]
  rw [behind?_of_token_ne (by simp [hclose]), behind?_of_token hclose]

/-- A comma ends an argument, and the others are read behind it. -/
theorem complete_more {comma : Lexeme} {args : List Expr} (hcomma : comma.token = .mark .comma)
    (h : Complete stop .conditional ts e) (hmore : CompleteArguments stop us args) :
    CompleteArguments stop (ts ++ comma :: us) (e :: args) := by
  intro rest
  have hinside : conditional stop (ts ++ comma :: us ++ rest) = .ok (e, comma :: us ++ rest) := by
    rw [List.append_assoc]
    exact h _ (ends_cons (by simp [hcomma, Token.grip, Operator.ofMark?]))
  rw [arguments_eq, hinside]
  dsimp only [Except.bind]
  rw [List.cons_append, behind?_of_token hcomma]
  dsimp only
  rw [hmore rest]

mutual

/-- The parser reads every phrase, whatever stands behind it without continuing it. The recursion is
on the phrase; each rule has a lemma above, which knows nothing of the grammar. -/
theorem complete : ∀ {rung : Rung} {tokens : List Token} {e : Expr}, Phrase rung tokens e →
    ∀ ts : List Lexeme, ts.map Lexeme.token = tokens → Complete stop rung ts e
  | _, _, _, .number x, ts, h => by
    obtain ⟨t, rfl, ht⟩ := List.map_eq_singleton_iff.1 h
    exact complete_operand (by simp [ht]) (by simp [ht]) fun rest => by rw [primary_cons, ht]
  | _, _, _, .text s, ts, h => by
    obtain ⟨t, rfl, ht⟩ := List.map_eq_singleton_iff.1 h
    exact complete_operand (by simp [ht]) (by simp [ht]) fun rest => by rw [primary_cons, ht]
  | _, _, _, .state s, ts, h => by
    obtain ⟨t, rfl, ht⟩ := List.map_eq_singleton_iff.1 h
    exact complete_operand (by simp [ht]) (by simp [ht]) fun rest => by rw [primary_cons, ht]
  | _, _, _, .keyword hs, ts, h => by
    obtain ⟨t, rfl, ht⟩ := List.map_eq_singleton_iff.1 h
    exact complete_keyword ht hs
  | _, _, _, .name hs, ts, h => by
    obtain ⟨t, rfl, ht⟩ := List.map_eq_singleton_iff.1 h
    exact complete_name ht hs
  | _, _, _, .emptyCall hs, ts, h => by
    obtain ⟨t, us, rfl, ht, h⟩ := List.map_eq_cons_iff.1 h
    obtain ⟨paren, us, rfl, hparen, h⟩ := List.map_eq_cons_iff.1 h
    obtain ⟨close, rfl, hclose⟩ := List.map_eq_singleton_iff.1 h
    exact complete_call ht hparen hs (call_of_close hclose)
  | _, _, _, .call hs harguments, ts, h => by
    obtain ⟨t, us, rfl, ht, h⟩ := List.map_eq_cons_iff.1 h
    obtain ⟨paren, us, rfl, hparen, h⟩ := List.map_eq_cons_iff.1 h
    exact complete_call ht hparen hs (call_of_arguments (complete_arguments harguments us h))
  | _, _, _, .parens hinside, ts, h => by
    obtain ⟨t, us, rfl, ht, h⟩ := List.map_eq_cons_iff.1 h
    obtain ⟨us, vs, rfl, hus, h⟩ := List.map_eq_append_iff.1 h
    obtain ⟨close, rfl, hclose⟩ := List.map_eq_singleton_iff.1 h
    exact complete_parens ht hclose (complete hinside us hus)
  | _, _, _, .fieldless hprimary, ts, h => complete hprimary ts h
  | _, _, _, .field part hoperand, ts, h => by
    obtain ⟨us, vs, rfl, hus, h⟩ := List.map_eq_append_iff.1 h
    obtain ⟨dot, vs, rfl, hdot, h⟩ := List.map_eq_cons_iff.1 h
    obtain ⟨t, rfl, ht⟩ := List.map_eq_singleton_iff.1 h
    exact complete_field hdot ht (complete hoperand us hus)
  | _, _, _, .unsigned hoperand, ts, h => complete_unsigned (complete hoperand ts h)
  | _, _, _, .negation hoperand, ts, h => by
    obtain ⟨t, us, rfl, ht, h⟩ := List.map_eq_cons_iff.1 h
    exact complete_negation ht (complete hoperand us h)
  | _, _, _, .opposite hoperand, ts, h => by
    obtain ⟨t, us, rfl, ht, h⟩ := List.map_eq_cons_iff.1 h
    exact complete_opposite ht (complete hoperand us h)
  | _, _, _, .single hoperand, ts, h => complete_single (complete hoperand ts h)
  | _, _, _, .binary op hleft hright, ts, h => by
    obtain ⟨us, vs, rfl, hus, h⟩ := List.map_eq_append_iff.1 h
    obtain ⟨t, vs, rfl, ht, hvs⟩ := List.map_eq_cons_iff.1 h
    exact complete_binary ht (complete hleft us hus) (complete hright vs hvs)
  | _, _, _, .unconditional hoperand, ts, h => complete_unconditional (complete hoperand ts h)
  | _, _, _, .conditional hcondition hwhenTrue hwhenFalse, ts, h => by
    obtain ⟨us, ts, rfl, hus, h⟩ := List.map_eq_append_iff.1 h
    obtain ⟨question, ts, rfl, hquestion, h⟩ := List.map_eq_cons_iff.1 h
    obtain ⟨vs, ts, rfl, hvs, h⟩ := List.map_eq_append_iff.1 h
    obtain ⟨colon, ws, rfl, hcolon, hws⟩ := List.map_eq_cons_iff.1 h
    exact complete_conditional hquestion hcolon (complete hcondition us hus)
      (complete hwhenTrue vs hvs) (complete hwhenFalse ws hws)

/-- The parser reads all arguments of a call. -/
theorem complete_arguments : ∀ {tokens : List Token} {args : List Expr}, Arguments tokens args →
    ∀ ts : List Lexeme, ts.map Lexeme.token = tokens → CompleteArguments stop ts args
  | _, _, .last hlast, ts, h => by
    obtain ⟨us, vs, rfl, hus, h⟩ := List.map_eq_append_iff.1 h
    obtain ⟨close, rfl, hclose⟩ := List.map_eq_singleton_iff.1 h
    exact complete_last hclose (complete hlast us hus)
  | _, _, .more hfirst hmore, ts, h => by
    obtain ⟨us, vs, rfl, hus, h⟩ := List.map_eq_append_iff.1 h
    obtain ⟨comma, vs, rfl, hcomma, hvs⟩ := List.map_eq_cons_iff.1 h
    exact complete_more hcomma (complete hfirst us hus) (complete_arguments hmore vs hvs)

end

end Descent

/-- Lexemes that derive a tree are read as that tree. -/
theorem parse_complete (h : Phrase .conditional (ts.map Lexeme.token) e) :
    parse stop ts = .ok e := by
  -- nothing stands behind a whole source
  have hcomplete : Descent.Complete stop .conditional ts e := Descent.complete h ts rfl
  have hread := hcomplete [] ends_nil
  rw [List.append_nil] at hread
  obtain _ | ⟨t, rest⟩ := ts
  · exact absurd (Descent.length_of_conditional hread) (Nat.lt_irrefl 0)
  · rw [Descent.parse_cons, hread]
    rfl

end ProcedureChart.Expr
