import ProcedureChart.Proofs.Expr.Descent
import ProcedureChart.Proofs.Expr.Grammar

/-!
# What the parser reads

What the parser reads are phrases of the grammar: the lexemes it takes off the front of its input
derive the tree it returns. Where it fails, everything complete in the fragment it returns derives
from lexemes in front of the fault.
-/

namespace ProcedureChart.Expr

/-! ### Fragments -/

/-- The complete expressions of a fragment. -/
def Fragment.parts : Fragment → List Expr
  | fault _ => []
  | after e rest | rightOf _ e rest | whenTrueOf e rest => e :: rest.parts
  | whenFalseOf condition whenTrue rest => condition :: whenTrue :: rest.parts

/-- An expression is the tree of lexemes that stand next to each other. -/
def Within (ts : List Lexeme) (e : Expr) : Prop :=
  ∃ rung part, part <:+: ts ∧ Phrase rung (part.map Lexeme.token) e

/-- A fault is reported at a lexeme or at the end of the source, and some complete expressions
stand in front of it. -/
def StopsAt (stop : Nat) (ts : List Lexeme) (error : SyntaxError) (parts : List Expr) : Prop :=
  ∃ reached rest, reached ++ rest = ts ∧ error.position = nextPosition stop rest ∧
    ∀ e ∈ parts, Within reached e

variable {α β : Type} {stop : Nat} {ts rest part before : List Lexeme} {error : SyntaxError} {parts : List Expr}
  {rung : Rung} {e : Expr}

theorem Within.append_left (h : Within ts e) (before : List Lexeme) : Within (before ++ ts) e := by
  obtain ⟨rung, part, hpart, hphrase⟩ := h
  exact ⟨rung, part, hpart.trans (List.suffix_append before ts).isInfix, hphrase⟩

theorem StopsAt.here (h : error.position = nextPosition stop ts) : StopsAt stop ts error [] :=
  ⟨[], ts, rfl, h, fun _ he => absurd he List.not_mem_nil⟩

theorem StopsAt.append_left (h : StopsAt stop ts error parts) (before : List Lexeme) :
    StopsAt stop (before ++ ts) error parts := by
  obtain ⟨reached, rest, rfl, hposition, hparts⟩ := h
  exact ⟨before ++ reached, rest, List.append_assoc .., hposition, fun e he =>
    (hparts e he).append_left before⟩

theorem StopsAt.cons (h : StopsAt stop ts error parts) (t : Lexeme) :
    StopsAt stop (t :: ts) error parts :=
  h.append_left [t]

/-- A phrase in front of what the other parts stand in. -/
theorem StopsAt.behind (h : StopsAt stop rest error parts)
    (hphrase : Phrase rung (part.map Lexeme.token) e) :
    StopsAt stop (part ++ rest) error (e :: parts) := by
  obtain ⟨reached, rest, rfl, hposition, hparts⟩ := h
  refine ⟨part ++ reached, rest, List.append_assoc .., hposition, ?_⟩
  intro e' he'
  rcases List.mem_cons.1 he' with rfl | he'
  · exact ⟨rung, part, (List.prefix_append part reached).isInfix, hphrase⟩
  · exact (hparts e' he').append_left part

/-! ### The functions of the parser, one by one -/

/-- A result of the parser stands for a phrase at the front of its input, or for a fault in it.
`derives` is the kind of phrase. -/
def Sound (stop : Nat) (derives : List Token → α → Prop) (ts : List Lexeme) :
    Except Fragment (α × List Lexeme) → Prop
  | .ok (a, rest) => ∃ part, part ++ rest = ts ∧ derives (part.map Lexeme.token) a
  | .error fragment => StopsAt stop ts fragment.syntaxError fragment.parts

/-- What is read behind a phrase, with some lexemes already read in front of it. -/
theorem Sound.bind {derives : List Token → α → Prop} {derives' : List Token → β → Prop}
    {result : Except Fragment (α × List Lexeme)}
    {f : α × List Lexeme → Except Fragment (β × List Lexeme)} (h : Sound stop derives ts result)
    (before : List Lexeme)
    (hnext : ∀ part a rest, result = .ok (a, rest) → part ++ rest = ts →
      derives (part.map Lexeme.token) a → Sound stop derives' (before ++ ts) (f (a, rest))) :
    Sound stop derives' (before ++ ts) (result.bind f) := by
  obtain fragment | ⟨a, rest⟩ := result
  · exact StopsAt.append_left h before
  · obtain ⟨part, heq, hpart⟩ := h
    exact hnext part a rest rfl heq hpart

theorem Sound.imp {derives derives' : List Token → α → Prop}
    {result : Except Fragment (α × List Lexeme)} (h : Sound stop derives ts result)
    (himp : ∀ {us a}, derives us a → derives' us a) : Sound stop derives' ts result := by
  obtain fragment | ⟨a, rest⟩ := result
  · exact h
  · obtain ⟨part, heq, hpart⟩ := h
    exact ⟨part, heq, himp hpart⟩

namespace Descent

/-- A condition, alone or with two branches. A fault may be in either branch or where the colon is
missing, and what was read before is in front of it. -/
theorem sound_conditional
    (hchained : Sound stop (Phrase (.chain .disjunction)) ts (chained stop (some .disjunction) ts))
    (hshorter : ∀ rest, rest.length < ts.length →
      Sound stop (Phrase .conditional) rest (conditional stop rest)) :
    Sound stop (Phrase .conditional) ts (conditional stop ts) := by
  rw [conditional_eq]
  refine hchained.bind [] ?_
  rintro part₁ condition r₁ - rfl hcondition
  dsimp only [List.nil_append]
  cases hquestion : behind? .question r₁ with
  | none => exact ⟨part₁, rfl, .unconditional hcondition⟩
  | some r₂ =>
    obtain ⟨question, htoken, rfl⟩ := behind?_eq_some.1 hquestion
    have hlength : r₂.length < (part₁ ++ question :: r₂).length := by
      simp only [List.length_append, List.length_cons]
      omega
    have hwhenTrue := hshorter r₂ hlength
    dsimp only [branches]
    generalize conditional stop r₂ = result at hwhenTrue ⊢
    obtain fragment | ⟨whenTrue, r₃⟩ := result
    · -- the fault is in the first branch
      exact (hwhenTrue.cons question).behind hcondition
    · obtain ⟨part₂, rfl, hwhenTrue⟩ := hwhenTrue
      dsimp only
      cases hcolon : behind? .colon r₃ with
      | none =>
        exact (((StopsAt.here rfl).behind hwhenTrue).cons question).behind hcondition
      | some r₄ =>
        obtain ⟨colon, htoken', rfl⟩ := behind?_eq_some.1 hcolon
        have hlength' : r₄.length < (part₁ ++ question :: (part₂ ++ colon :: r₄)).length := by
          simp only [List.length_append, List.length_cons]
          omega
        have hwhenFalse := hshorter r₄ hlength'
        dsimp only
        generalize conditional stop r₄ = result at hwhenFalse ⊢
        obtain fragment | ⟨whenFalse, r₅⟩ := result
        · -- the fault is in the second branch, behind the first
          exact (((hwhenFalse.cons colon).behind hwhenTrue).cons question).behind hcondition
        · obtain ⟨part₃, rfl, hwhenFalse⟩ := hwhenFalse
          refine ⟨part₁ ++ question :: (part₂ ++ colon :: part₃), by simp, ?_⟩
          simpa [htoken, htoken'] using Phrase.conditional hcondition hwhenTrue hwhenFalse

theorem sound_chained {level : Level}
    (htighter : Sound stop (Phrase (.ofLevel level.tighter)) ts (chained stop level.tighter ts))
    (hchain : ∀ left rest, rest.length < ts.length → ∀ before : List Lexeme,
      Phrase (.chain level) (before.map Lexeme.token) left →
      Sound stop (Phrase (.chain level)) (before ++ rest) (chain stop level left rest)) :
    Sound stop (Phrase (.chain level)) ts (chained stop (some level) ts) := by
  rw [chained_some]
  refine htighter.bind [] ?_
  rintro part left rest hread rfl hphrase
  exact hchain left rest (length_of_chained hread) part (.single hphrase)

/-- `before` is what the left operand was read from. It grows with every operator, since the
operands so far become the left operand of the next one. -/
theorem sound_chain {level : Level} {left : Expr}
    (hchained : ∀ rest, rest.length < ts.length →
      Sound stop (Phrase (.ofLevel level.tighter)) rest (chained stop level.tighter rest))
    (hchain : ∀ left rest, rest.length < ts.length → ∀ before : List Lexeme,
      Phrase (.chain level) (before.map Lexeme.token) left →
      Sound stop (Phrase (.chain level)) (before ++ rest) (chain stop level left rest))
    (hleft : Phrase (.chain level) (before.map Lexeme.token) left) :
    Sound stop (Phrase (.chain level)) (before ++ ts) (chain stop level left ts) := by
  rw [chain_eq]
  cases hoperator : behindOperator? level ts with
  | none => exact ⟨before, rfl, hleft⟩
  | some p =>
    obtain ⟨op, r₁⟩ := p
    obtain ⟨t, htoken, rfl, rfl⟩ := behindOperator?_eq_some.1 hoperator
    have hright := hchained r₁ (by simp)
    dsimp only
    generalize chained stop op.level.tighter r₁ = result at hright ⊢
    obtain fragment | ⟨right, r₂⟩ := result
    · exact (hright.cons t).behind hleft
    · obtain ⟨part, rfl, hright⟩ := hright
      -- what was read so far is the left operand of what comes next
      have hphrase : Phrase (.chain op.level) ((before ++ t :: part).map Lexeme.token)
          (.binary op left right) := by
        simpa [htoken] using Phrase.binary op hleft hright
      have hlength : r₂.length < (t :: (part ++ r₂)).length := by
        simp only [List.length_append, List.length_cons]
        omega
      have hmore := hchain (.binary op left right) r₂ hlength _ hphrase
      rwa [List.append_assoc] at hmore

/-- `before` is what the operand was read from, and it grows with every field. -/
theorem sound_fields (stop : Nat) (e : Expr) (ts before : List Lexeme)
    (he : Phrase .operand (before.map Lexeme.token) e) :
    Sound stop (Phrase .operand) (before ++ ts) (fields stop e ts) := by
  induction hn : ts.length using Nat.strongRecOn generalizing e ts before with
  | ind n ih =>
    subst hn
    rw [fields_eq]
    cases hdot : behind? .dot ts with
    | none => exact ⟨before, rfl, he⟩
    | some r₁ =>
      obtain ⟨dot, htoken, rfl⟩ := behind?_eq_some.1 hdot
      dsimp only
      cases hname : behindName? r₁ with
      | none => exact ((StopsAt.here rfl).cons dot).behind he
      | some p =>
        obtain ⟨part, r₂⟩ := p
        obtain ⟨t, htoken', rfl⟩ := behindName?_eq_some.1 hname
        have hfield : Phrase .operand ((before ++ [dot, t]).map Lexeme.token) (.field e part) := by
          simpa [htoken, htoken'] using Phrase.field part he
        have hlength : r₂.length < (dot :: t :: r₂).length := by
          simp only [List.length_cons]
          omega
        have hmore := ih r₂.length hlength (.field e part) r₂ _ hfield rfl
        rwa [List.append_assoc] at hmore

/-- `t` is a unary operator. -/
theorem sound_sign {f : Expr → Expr} {t : Lexeme}
    (hsign : ∀ {us : List Token} {e : Expr}, Phrase .unary us e →
      Phrase .unary (t.token :: us) (f e))
    (hoperand : Sound stop (Phrase .unary) ts (unary stop ts)) :
    Sound stop (Phrase .unary) (t :: ts) ((unary stop ts).map (Prod.map f id)) := by
  generalize unary stop ts = result at hoperand ⊢
  obtain fragment | ⟨e, rest⟩ := result
  · exact hoperand.cons t
  · obtain ⟨part, rfl, hphrase⟩ := hoperand
    exact ⟨t :: part, rfl, hsign hphrase⟩

/-- Signs in front of an operand, each of which is a token of its own. -/
theorem sound_unary
    (hshorter : ∀ rest, rest.length < ts.length → Sound stop (Phrase .unary) rest (unary stop rest))
    (hprimary : Sound stop (Phrase .primary) ts (primary stop ts)) :
    Sound stop (Phrase .unary) ts (unary stop ts) := by
  rw [unary_eq]
  cases hnot : behind? .not ts with
  | some r₁ =>
    obtain ⟨t, htoken, rfl⟩ := behind?_eq_some.1 hnot
    refine sound_sign ?_ (hshorter r₁ (Nat.lt_succ_self _))
    rw [htoken]
    exact .negation
  | none =>
    dsimp only
    cases hminus : behind? .minus ts with
    | some r₁ =>
      obtain ⟨t, htoken, rfl⟩ := behind?_eq_some.1 hminus
      refine sound_sign ?_ (hshorter r₁ (Nat.lt_succ_self _))
      rw [htoken]
      exact .opposite
    | none =>
      refine hprimary.bind [] ?_
      rintro part e r₁ - rfl hphrase
      exact (sound_fields stop e r₁ part (.fieldless hphrase)).imp .unsigned

/-- `t` and `paren` are the name of the call and the parenthesis behind it. -/
theorem sound_call {s : String} {t paren : Lexeme} (ht : t.token = .name s)
    (hparen : paren.token = .mark .openParen) (hs : keyword? s = none)
    (harguments : Sound stop Arguments ts (arguments stop ts)) :
    Sound stop (Phrase .primary) (t :: paren :: ts) (call stop s ts) := by
  rw [call]
  cases hclose : behind? .closeParen ts with
  | some rest =>
    obtain ⟨close, htoken, rfl⟩ := behind?_eq_some.1 hclose
    exact ⟨[t, paren, close], rfl, by simpa [ht, hparen, htoken] using Phrase.emptyCall hs⟩
  | none =>
    refine harguments.bind [t, paren] ?_
    rintro part args rest - rfl harguments
    exact ⟨t :: paren :: part, rfl, by simpa [ht, hparen] using Phrase.call hs harguments⟩

/-- `t` is the name. -/
theorem sound_named {s : String} {t : Lexeme} (ht : t.token = .name s)
    (harguments : ∀ rest, rest.length ≤ ts.length →
      Sound stop Arguments rest (arguments stop rest)) :
    Sound stop (Phrase .primary) (t :: ts) (named stop s ts) := by
  rw [named]
  cases hs : keyword? s with
  | some v => exact ⟨[t], rfl, by simpa [ht] using Phrase.keyword hs⟩
  | none =>
    dsimp only
    cases hopen : behind? .openParen ts with
    | none => exact ⟨[t], rfl, by simpa [ht] using Phrase.name hs⟩
    | some rest =>
      obtain ⟨paren, hparen, rfl⟩ := behind?_eq_some.1 hopen
      exact sound_call ht hparen hs (harguments rest (by simp))

/-- `t` is the opening parenthesis. -/
theorem sound_parenthesized {t : Lexeme} (ht : t.token = .mark .openParen)
    (hconditional : Sound stop (Phrase .conditional) ts (conditional stop ts)) :
    Sound stop (Phrase .primary) (t :: ts) (parenthesized stop ts) := by
  rw [parenthesized]
  refine hconditional.bind [t] ?_
  rintro part e r₁ - rfl hinside
  dsimp only
  cases hclose : behind? .closeParen r₁ with
  | none => exact ((StopsAt.here rfl).behind hinside).cons t
  | some r₂ =>
    obtain ⟨close, htoken, rfl⟩ := behind?_eq_some.1 hclose
    refine ⟨t :: (part ++ [close]), by simp, ?_⟩
    simpa [ht, htoken] using Phrase.parens hinside

/-- An operand is a single token, a call, or something in parentheses. -/
theorem sound_primary
    (hconditional : ∀ rest, rest.length < ts.length →
      Sound stop (Phrase .conditional) rest (conditional stop rest))
    (harguments : ∀ rest, rest.length < ts.length →
      Sound stop Arguments rest (arguments stop rest)) :
    Sound stop (Phrase .primary) ts (primary stop ts) := by
  cases ts with
  | nil =>
    rw [primary_nil]
    exact .here rfl
  | cons t rest =>
    rw [primary_cons]
    split
    · next x ht => exact ⟨[t], rfl, by simpa [ht] using Phrase.number x⟩
    · next s ht => exact ⟨[t], rfl, by simpa [ht] using Phrase.text s⟩
    · next s ht => exact ⟨[t], rfl, by simpa [ht] using Phrase.state s⟩
    · next s ht => exact sound_named ht fun more hle => harguments more (Nat.lt_succ_of_le hle)
    · next ht => exact sound_parenthesized ht (hconditional rest (by simp))
    · exact .here rfl

/-- An argument with the others behind it, or with the closing parenthesis. A missing one is a fault
behind the argument. -/
theorem sound_arguments
    (hconditional : Sound stop (Phrase .conditional) ts (conditional stop ts))
    (hshorter : ∀ rest, rest.length < ts.length →
      Sound stop Arguments rest (arguments stop rest)) :
    Sound stop Arguments ts (arguments stop ts) := by
  rw [arguments_eq]
  refine hconditional.bind [] ?_
  rintro part e r₁ - rfl hfirst
  dsimp only [List.nil_append]
  cases hcomma : behind? .comma r₁ with
  | some r₂ =>
    obtain ⟨comma, htoken, rfl⟩ := behind?_eq_some.1 hcomma
    have hlength : r₂.length < (part ++ comma :: r₂).length := by
      simp only [List.length_append, List.length_cons]
      omega
    have hmore := hshorter r₂ hlength
    dsimp only
    generalize arguments stop r₂ = result at hmore ⊢
    obtain fragment | ⟨args, r₃⟩ := result
    · exact (hmore.cons comma).behind hfirst
    · obtain ⟨part', rfl, hmore⟩ := hmore
      refine ⟨part ++ comma :: part', by simp, ?_⟩
      simpa [htoken] using Arguments.more hfirst hmore
  | none =>
    dsimp only
    cases hclose : behind? .closeParen r₁ with
    | some r₂ =>
      obtain ⟨close, htoken, rfl⟩ := behind?_eq_some.1 hclose
      refine ⟨part ++ [close], by simp, ?_⟩
      simpa [htoken] using Arguments.last hfirst
    | none => exact (StopsAt.here rfl).behind hfirst

/-- What the parser reads as a conditional is one, and what it leaves out of a malformed one stands
behind the fault. -/
theorem sound (stop : Nat) (ts : List Lexeme) :
    Sound stop (Phrase .conditional) ts (conditional stop ts) := by
  refine (induction (fun ts => Sound stop (Phrase .conditional) ts (conditional stop ts))
    (fun level ts => Sound stop (Phrase (.ofLevel level)) ts (chained stop level ts))
    (fun level left ts => ∀ before : List Lexeme,
      Phrase (.chain level) (before.map Lexeme.token) left →
      Sound stop (Phrase (.chain level)) (before ++ ts) (chain stop level left ts))
    (fun ts => Sound stop (Phrase .unary) ts (unary stop ts))
    (fun ts => Sound stop (Phrase .primary) ts (primary stop ts))
    (fun ts => Sound stop Arguments ts (arguments stop ts))
    ?_ ?_ ?_ ?_ ?_ ?_ ?_ ts).1
  · exact fun ts => sound_conditional
  · intro ts hunary
    rwa [chained_none]
  · exact fun level ts => sound_chained
  · exact fun level left ts hchained hchain before => sound_chain hchained hchain
  · exact fun ts => sound_unary
  · exact fun ts => sound_primary
  · exact fun ts => sound_arguments

end Descent

/-- What a whole source reads as is the tree of its lexemes, and the complete parts of a malformed
source stand in front of its fault. -/
theorem parse_sound (stop : Nat) (ts : List Lexeme) (hne : ts ≠ []) :
    match parse stop ts with
    | .ok e => Phrase .conditional (ts.map Lexeme.token) e
    | .error fragment => StopsAt stop ts fragment.syntaxError fragment.parts := by
  obtain _ | ⟨t, rest⟩ := ts
  · exact absurd rfl hne
  · have hsound := Descent.sound stop (t :: rest)
    rw [Descent.parse_cons]
    generalize Descent.conditional stop (t :: rest) = result at hsound ⊢
    obtain fragment | ⟨e, _ | ⟨u, more⟩⟩ := result
    · exact hsound
    · obtain ⟨part, heq, hphrase⟩ := hsound
      rw [List.append_nil] at heq
      rwa [← heq]
    · obtain ⟨part, heq, hphrase⟩ := hsound
      rw [← heq]
      exact (StopsAt.here rfl).behind hphrase

end ProcedureChart.Expr
