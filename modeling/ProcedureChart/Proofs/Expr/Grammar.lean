import ProcedureChart.Expr.Basic

/-!
# The grammar

Which tokens make up an expression, and what its tree is. The grammar is a ladder: below the
conditional stand the six levels of binary operators, the unary operators, an operand with fields
behind it, and the primaries. A phrase of a rung is a phrase of the rung below, or is built from
phrases of the rungs below with a phrase of its own rung on the left (operators, fields) or on the
right (conditionals, unary operators). That is how phrases group. Parentheses lead from the
tightest rung back to the loosest and leave no trace in the tree. A phrase of a rung is a phrase of
every looser one (`Phrase.mono`).

Nothing here refers to the parser.
-/

namespace ProcedureChart.Expr

/-- The rungs of the grammar. -/
inductive Rung where
  | conditional
  | chain (level : Level)
  | unary
  | operand
  | primary

/-- The rung of a level, or the unary rung below all levels. -/
def Rung.ofLevel : Option Level → Rung
  | some level => chain level
  | none => unary

/-- How loose a rung is. -/
def Rung.rank : Rung → Nat
  | primary => 0
  | operand => 1
  | unary => 2
  | chain .product => 3
  | chain .sum => 4
  | chain .order => 5
  | chain .equality => 6
  | chain .conjunction => 7
  | chain .disjunction => 8
  | conditional => 9

mutual

/-- The tokens of an expression of a rung, and its tree. -/
inductive Phrase : Rung → List Token → Expr → Prop where
  | number (x : Float) : Phrase .primary [.number x] (.literal (.number x))
  | text (s : String) : Phrase .primary [.text s] (.literal (.text s))
  | state (s : String) : Phrase .primary [.state s] (.state s)
  | keyword {s : String} {v : Value} :
      keyword? s = some v → Phrase .primary [.name s] (.literal v)
  | name {s : String} : keyword? s = none → Phrase .primary [.name s] (.name s)
  | emptyCall {s : String} :
      keyword? s = none →
      Phrase .primary [.name s, .mark .openParen, .mark .closeParen] (.call s [])
  | call {s : String} {ts : List Token} {args : List Expr} :
      keyword? s = none → Arguments ts args →
      Phrase .primary (.name s :: .mark .openParen :: ts) (.call s args)
  | parens {ts : List Token} {e : Expr} :
      Phrase .conditional ts e →
      Phrase .primary (.mark .openParen :: (ts ++ [.mark .closeParen])) e
  | fieldless {ts : List Token} {e : Expr} : Phrase .primary ts e → Phrase .operand ts e
  | field {ts : List Token} {e : Expr} (part : String) :
      Phrase .operand ts e →
      Phrase .operand (ts ++ [.mark .dot, .name part]) (.field e part)
  | unsigned {ts : List Token} {e : Expr} : Phrase .operand ts e → Phrase .unary ts e
  | negation {ts : List Token} {e : Expr} :
      Phrase .unary ts e → Phrase .unary (.mark .not :: ts) (.negation e)
  | opposite {ts : List Token} {e : Expr} :
      Phrase .unary ts e → Phrase .unary (.mark .minus :: ts) (.opposite e)
  | single {level : Level} {ts : List Token} {e : Expr} :
      Phrase (.ofLevel level.tighter) ts e → Phrase (.chain level) ts e
  | binary (op : Operator) {ts us : List Token} {left right : Expr} :
      Phrase (.chain op.level) ts left → Phrase (.ofLevel op.level.tighter) us right →
      Phrase (.chain op.level) (ts ++ .mark op.mark :: us) (.binary op left right)
  | unconditional {ts : List Token} {e : Expr} :
      Phrase (.chain .disjunction) ts e → Phrase .conditional ts e
  | conditional {ts us vs : List Token} {condition whenTrue whenFalse : Expr} :
      Phrase (.chain .disjunction) ts condition → Phrase .conditional us whenTrue →
      Phrase .conditional vs whenFalse →
      Phrase .conditional (ts ++ .mark .question :: (us ++ .mark .colon :: vs))
        (.conditional condition whenTrue whenFalse)

/-- The tokens of the arguments of a call and of the parenthesis behind them. -/
inductive Arguments : List Token → List Expr → Prop where
  | last {ts : List Token} {e : Expr} :
      Phrase .conditional ts e → Arguments (ts ++ [.mark .closeParen]) [e]
  | more {ts us : List Token} {e : Expr} {args : List Expr} :
      Phrase .conditional ts e → Arguments us args →
      Arguments (ts ++ .mark .comma :: us) (e :: args)

end

/-! ### Looser rungs -/

/-- The next tighter rung. -/
def Rung.tighter : Rung → Option Rung
  | primary => none
  | operand => some primary
  | unary => some operand
  | chain level => some (.ofLevel level.tighter)
  | conditional => some (.chain .disjunction)

namespace Rung

variable {rung rung' : Rung}

theorem rank_of_tighter (h : rung.tighter = some rung') : rung.rank = rung'.rank + 1 := by
  cases rung with
  | primary => cases h
  | operand | unary | conditional =>
    cases h
    rfl
  | chain level =>
    cases h
    cases level <;> rfl

theorem exists_tighter (h : 0 < rung.rank) : ∃ rung', rung.tighter = some rung' := by
  cases rung with
  | primary => cases h
  | operand | unary | conditional | chain => exact ⟨_, rfl⟩

theorem rank_le (rung : Rung) : rung.rank ≤ conditional.rank := by
  cases rung with
  | chain level => cases level <;> decide
  | primary | operand | unary | conditional => decide

theorem rank_injective (h : rung.rank = rung'.rank) : rung = rung' := by
  rcases rung with _ | ⟨_ | _ | _ | _ | _ | _⟩ | _ | _ | _ <;>
    rcases rung' with _ | ⟨_ | _ | _ | _ | _ | _⟩ | _ | _ | _ <;> simp [rank] at h ⊢

end Rung

namespace Phrase

variable {rung place : Rung} {ts : List Token} {e : Expr}

/-- A phrase is a phrase of the next looser rung, without anything added to it. -/
theorem of_tighter {tighter : Rung} (hrung : rung.tighter = some tighter)
    (h : Phrase tighter ts e) : Phrase rung ts e := by
  cases rung with
  | primary => cases hrung
  | operand =>
    cases hrung
    exact .fieldless h
  | unary =>
    cases hrung
    exact .unsigned h
  | chain level =>
    cases hrung
    exact .single h
  | conditional =>
    cases hrung
    exact .unconditional h

/-- A phrase of a rung is a phrase of the looser rungs. -/
theorem mono (h : Phrase rung ts e) (hle : rung.rank ≤ place.rank) : Phrase place ts e := by
  -- induction on how loose the place is, one rung at a time
  induction hrank : place.rank generalizing place with
  | zero =>
    obtain rfl : rung = place := Rung.rank_injective (by omega)
    exact h
  | succ n ih =>
    by_cases heq : rung.rank = place.rank
    · obtain rfl := Rung.rank_injective heq
      exact h
    · have hpos : 0 < place.rank := by omega
      obtain ⟨tighter, htighter⟩ := Rung.exists_tighter hpos
      have hnext := Rung.rank_of_tighter htighter
      exact .of_tighter htighter (ih (by omega) (by omega))

theorem to_conditional (h : Phrase rung ts e) : Phrase .conditional ts e :=
  h.mono rung.rank_le

theorem of_primary (h : Phrase .primary ts e) (place : Rung) : Phrase place ts e :=
  h.mono (Nat.zero_le _)

end Phrase

end ProcedureChart.Expr
