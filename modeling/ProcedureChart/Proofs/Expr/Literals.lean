import ProcedureChart.Proofs.Expr.Agreement
import ProcedureChart.Proofs.Expr.Signs

/-!
# Negative literals are transparent

With the sign of every negative number split off, an expression has the same result in every
context, and a malformed one the same error at the same position (`evaluate_splitSigns`). The parser
takes the same course on both lists of lexemes (`Descent.agrees`), but the trees are not the same:
a field behind a negative number is a field of the literal, and stands under the sign once this is
split off. A number has no fields, so the results are the same all the same (`Opposed`).
-/

namespace ProcedureChart.Expr

variable {α β : Type} {stop : Nat} {place : Nat → Nat} {ts rest : List Lexeme}

/-! ### Equal results -/

/-- Two expressions have the same result in every context. -/
def SameValue (e e' : Expr) : Prop := ∀ c, e.eval c = e'.eval c

/-- Two lists of arguments have the same results in every context. -/
def SameValues (args args' : List Expr) : Prop := ∀ c, evalAll c args = evalAll c args'

/-- Two malformed expressions have the same fault, and the same error in every context. -/
structure Fragment.Same (fragment fragment' : Fragment) : Prop where
  fault : fragment.syntaxError = fragment'.syntaxError
  error : ∀ c, fragment.error c = fragment'.error c

namespace SameValue

variable {e e' left left' right right' : Expr}

/-- Every expression has its own result. The lemmas below say that the results of two expressions
agree if those of their parts do, one lemma for each form of an expression. -/
theorem refl (e : Expr) : SameValue e e := fun _ => rfl

theorem field (h : SameValue e e') (part : String) :
    SameValue (.field e part) (.field e' part) := by
  intro c
  rw [eval_field, eval_field, h]

theorem negation (h : SameValue e e') : SameValue (.negation e) (.negation e') := by
  intro c
  rw [eval_negation, eval_negation, h]

theorem opposite (h : SameValue e e') : SameValue (.opposite e) (.opposite e') := by
  intro c
  rw [eval_opposite, eval_opposite, h]

/-- Both operands are replaced at once. An operator that does not evaluate its right operand does
not evaluate the other one either, since it decides this by the result of the left one. -/
theorem binary (op : Operator) (hleft : SameValue left left') (hright : SameValue right right') :
    SameValue (.binary op left right) (.binary op left' right') := by
  intro c
  rw [eval_binary, eval_binary, hleft, hright]

/-- The branch that is evaluated is chosen by the same result on both sides. -/
theorem conditional (h : SameValue e e') (hleft : SameValue left left')
    (hright : SameValue right right') :
    SameValue (.conditional e left right) (.conditional e' left' right') := by
  intro c
  rw [eval_conditional, eval_conditional, h, hleft, hright]

end SameValue

namespace SameValues

variable {args args' : List Expr}

theorem singleton {e e' : Expr} (h : SameValue e e') : SameValues [e] [e'] := by
  intro c
  rw [evalAll_cons, evalAll_cons, h, evalAll]

theorem cons {e e' : Expr} (h : SameValue e e') (hargs : SameValues args args') :
    SameValues (e :: args) (e' :: args') := by
  intro c
  rw [evalAll_cons, evalAll_cons, h, hargs]

/-- The results of its arguments are all that a call sees of them. -/
theorem call (h : SameValues args args') (function : String) :
    SameValue (.call function args) (.call function args') := by
  intro c
  rw [eval_call, eval_call, h]

end SameValues

namespace Fragment.Same

variable {e e' whenTrue whenTrue' : Expr} {fragment fragment' : Fragment}

theorem refl (fragment : Fragment) : fragment.Same fragment := ⟨rfl, fun _ => rfl⟩

/-- What stood in front of the fault is evaluated first, and its error comes first. -/
theorem after (he : SameValue e e') (h : fragment.Same fragment') :
    (Fragment.after e fragment).Same (.after e' fragment') :=
  ⟨h.fault, fun c => by rw [Fragment.error, Fragment.error, he, h.error]⟩

/-- The fault lies in a right operand. Whether it is reached depends on the result of the left one,
which is the same on both sides. -/
theorem rightOf (op : Operator) (he : SameValue e e') (h : fragment.Same fragment') :
    (Fragment.rightOf op e fragment).Same (.rightOf op e' fragment') :=
  ⟨h.fault, fun c => by rw [Fragment.error, Fragment.error, he, h.error, h.fault]⟩

/-- The fault lies in the first branch, so the condition decides whether it is reached. -/
theorem whenTrueOf (he : SameValue e e') (h : fragment.Same fragment') :
    (Fragment.whenTrueOf e fragment).Same (.whenTrueOf e' fragment') :=
  ⟨h.fault, fun c => by rw [Fragment.error, Fragment.error, he, h.error, h.fault]⟩

/-- The fault lies in the second branch. The condition decides whether it is reached, and the first
branch may be evaluated in its place. -/
theorem whenFalseOf (he : SameValue e e') (htrue : SameValue whenTrue whenTrue')
    (h : fragment.Same fragment') :
    (Fragment.whenFalseOf e whenTrue fragment).Same (.whenFalseOf e' whenTrue' fragment') :=
  ⟨h.fault, fun c => by rw [Fragment.error, Fragment.error, he, htrue, h.error, h.fault]⟩

end Fragment.Same

/-! ### Readings that agree -/

/-- The parser comes to faults with the same error, or to expressions with the same results, and
what it leaves unread is the same up to signs, and begins with no negative number. -/
def Agrees (place : Nat → Nat) (same : α → α → Prop)
    (read read' : Except Fragment (α × List Lexeme)) : Prop :=
  (∃ fragment fragment', read = .error fragment ∧ read' = .error fragment' ∧
    fragment.Same fragment') ∨
  ∃ a a' rest, read = .ok (a, rest) ∧ read' = .ok (a', splitSigns place rest) ∧ same a a' ∧
    SignsOpen true rest

namespace Agrees

variable {same : α → α → Prop} {same' : β → β → Prop}
  {read read' : Except Fragment (α × List Lexeme)}

/-- Two faults agree if they are the same in every context. What was left to read at a fault plays
no part. -/
theorem fails {fragment fragment' : Fragment} (h : fragment.Same fragment') :
    Agrees place same (.error fragment) (.error fragment') :=
  .inl ⟨fragment, fragment', rfl, rfl, h⟩

/-- Two readings agree if they give the same, leave the same up to signs, and leave nothing that
begins with a negative number. -/
theorem reads {a a' : α} (h : same a a') (hrest : SignsOpen true rest) :
    Agrees place same (.ok (a, rest)) (.ok (a', splitSigns place rest)) :=
  .inr ⟨a, a', rest, rfl, rfl, h, hrest⟩

/-- What is made of agreeing readings agrees, and nothing more is read for it. -/
theorem map (h : Agrees place same read read') {f f' : α → β}
    (hf : ∀ a a', same a a' → same' (f a) (f' a')) :
    Agrees place same' (read.map (Prod.map f id)) (read'.map (Prod.map f' id)) := by
  obtain ⟨fragment, fragment', rfl, rfl, hsame⟩ | ⟨a, a', rest, rfl, rfl, hsame, hrest⟩ := h
  · exact .fails hsame
  · exact .reads (hf a a' hsame) hrest

/-- If two readings agree and so does what each of them goes on with, then the two as a whole do.
What they go on with stands behind an operand, which is what keeps negative numbers away from its
front. -/
theorem bind (h : Agrees place same read read')
    {f f' : α × List Lexeme → Except Fragment (β × List Lexeme)}
    (hnext : ∀ a a' rest, read = .ok (a, rest) → same a a' → SignsOpen true rest →
      Agrees place same' (f (a, rest)) (f' (a', splitSigns place rest))) :
    Agrees place same' (read.bind f) (read'.bind f') := by
  obtain ⟨fragment, fragment', rfl, rfl, hsame⟩ | ⟨a, a', rest, rfl, rfl, hsame, hrest⟩ := h
  · exact .fails hsame
  · exact hnext a a' rest rfl hsame hrest

end Agrees

/-! ### Fields -/

/-- An expression is a number where another one is its opposite, and they have the same error where
they have one. -/
def Opposed (e e' : Expr) : Prop :=
  ∀ c, (∃ x, e.eval c = .ok (.number (-x)) ∧ e'.eval c = .ok (.number x)) ∨
    ∃ error, e.eval c = .error error ∧ e'.eval c = .error error

/-- A number and its opposite without the sign, which is put back by an operator. -/
theorem opposed_literal (x : Float) :
    Opposed (.literal (.number x)) (.literal (.number (-x))) := by
  intro c
  refine .inl ⟨-x, ?_, ?_⟩
  · rw [eval, Numeric.float_neg_neg]
  · rw [eval]

/-- A number has no fields, whatever its sign. -/
theorem Opposed.field {e e' : Expr} (h : Opposed e e') (part : String) :
    Opposed (.field e part) (.field e' part) := by
  intro c
  rw [eval_field, eval_field]
  obtain ⟨x, hx, hx'⟩ | ⟨error, herror, herror'⟩ := h c
  · rw [hx, hx']
    exact .inr ⟨_, rfl, rfl⟩
  · rw [herror, herror']
    exact .inr ⟨error, rfl, rfl⟩

/-- The sign that was split off is put back in front of the value, and negation is its own
inverse. -/
theorem Opposed.sameValue {e e' : Expr} (h : Opposed e e') : SameValue e (.opposite e') := by
  intro c
  rw [eval_opposite]
  obtain ⟨x, hx, hx'⟩ | ⟨error, herror, herror'⟩ := h c
  · rw [hx, hx']
    rfl
  · rw [herror, herror']
    rfl

/-- A fault behind an operand is met if the operand has a value, and it has one on both sides or on
neither. -/
theorem Opposed.after {e e' : Expr} (h : Opposed e e') (error : SyntaxError) :
    (Fragment.after e (.fault error)).Same (.after e' (.fault error)) := by
  refine ⟨rfl, fun c => ?_⟩
  simp only [Fragment.error]
  obtain ⟨x, hx, hx'⟩ | ⟨error, herror, herror'⟩ := h c
  · rw [hx, hx']
  · rw [herror, herror']

namespace Descent

/-- Fields are read alike behind operands that are alike in a sense which fields do not change. It
is needed for two such senses: to have the same value, and to be numbers of opposite signs. -/
theorem agrees_fields {same : Expr → Expr → Prop}
    (hfield : ∀ e e' part, same e e' → same (.field e part) (.field e' part))
    (hafter : ∀ e e' error, same e e' →
      (Fragment.after e (.fault error)).Same (.after e' (.fault error)))
    {e e' : Expr} (he : same e e') (hts : SignsOpen true ts) :
    Agrees place same (fields stop e ts) (fields stop e' (splitSigns place ts)) := by
  induction hn : ts.length using Nat.strongRecOn generalizing e e' ts with
  | ind n ih =>
    subst hn
    rw [fields_eq, fields_eq, behind?_splitSigns_of_ne (m := .dot) (by decide)]
    cases hdot : behind? .dot ts with
    | none => exact .reads he hts
    | some r₁ =>
      have hlength := length_of_behind hdot
      have hr₁ : SignsOpen true r₁ := hts.behind? hdot
      dsimp only [Option.map]
      rw [behindName?_splitSigns hr₁, nextPosition_splitSigns hr₁]
      cases hname : behindName? r₁ with
      | none => exact .fails (hafter e e' _ he)
      | some p =>
        obtain ⟨part, r₂⟩ := p
        have hlength' := length_of_behindName hname
        exact ih r₂.length (by omega) (hfield e e' part he) (hr₁.behindName? hname) rfl

/-- Fields are read in the same way behind operands of the same value, since a field of a value
depends on nothing but the value. -/
theorem agrees_fields_same {e e' : Expr} (he : SameValue e e') (hts : SignsOpen true ts) :
    Agrees place SameValue (fields stop e ts) (fields stop e' (splitSigns place ts)) :=
  agrees_fields (fun _ _ part h => h.field part) (fun _ _ _ h => .after h (.refl _)) he hts

/-- A number in front is read with the fields behind it, without an operator. -/
theorem unary_number {t : Lexeme} {x : Float} (ht : t.token = .number x) :
    unary stop (t :: rest) = fields stop (.literal (.number x)) rest := by
  rw [unary_eq, behind?_cons, behind?_cons, ht, if_neg nofun, if_neg nofun]
  dsimp only
  rw [operand, primary_cons, ht]
  rfl

/-- A negative number is read like the opposite of the positive one. With a field behind it, the
sign is taken off the field and not the number, but a number has no field in either case. -/
theorem agrees_unary_negative {t : Lexeme} {x : Float} (ht : t.token = .number x)
    (hx : Numeric.isNegative x) (hrest : SignsOpen true rest) :
    Agrees place SameValue (unary stop (t :: rest))
      (unary stop (splitSigns place (t :: rest))) := by
  have hsplit : unary stop (splitSigns place (t :: rest)) =
      (fields stop (.literal (.number (-x))) (splitSigns place rest)).map
        (Prod.map .opposite id) := by
    rw [splitSigns_cons_negative ht hx, unary_eq, behind?_cons, behind?_cons, if_neg nofun,
      if_pos rfl]
    dsimp only
    rw [unary_number rfl]
  rw [unary_number ht, hsplit]
  have hfields : Agrees place Opposed (fields stop (.literal (.number x)) rest)
      (fields stop (.literal (.number (-x))) (splitSigns place rest)) :=
    agrees_fields (fun _ _ part h => Opposed.field h part) (fun _ _ error h => h.after error)
      (opposed_literal x) hrest
  obtain ⟨fragment, fragment', hread, hread', hsame⟩ |
    ⟨e, e', more, hread, hread', he, hmore⟩ := hfields
  · rw [hread, hread']
    exact .fails hsame
  · rw [hread, hread']
    exact .reads he.sameValue hmore

/-- An operand with the signs in front of it. A negative number in front is the one case where the
two lists differ at once; all signs that are marks already are read alike. -/
theorem agrees_unary (hts : SignsOpen false ts)
    (hshorter : ∀ rest, rest.length < ts.length → SignsOpen false rest →
      Agrees place SameValue (unary stop rest) (unary stop (splitSigns place rest)))
    (hprimary : (∀ t ∈ ts.head?, t.token.isNegative = false) →
      Agrees place SameValue (primary stop ts) (primary stop (splitSigns place ts))) :
    Agrees place SameValue (unary stop ts) (unary stop (splitSigns place ts)) := by
  by_cases hhead : ∀ t ∈ ts.head?, t.token.isNegative = false
  · -- both begin with the same lexeme
    rw [unary_eq, unary_eq, behind?_splitSigns_of_ne (m := .not) (by decide),
      behind?_splitSigns (m := .minus) fun _ => hhead]
    cases hnot : behind? .not ts with
    | some rest =>
      exact (hshorter rest (length_of_behind hnot) (hts.behind? hnot)).map
        fun _ _ he => he.negation
    | none =>
      dsimp only [Option.map]
      cases hminus : behind? .minus ts with
      | some rest =>
        exact (hshorter rest (length_of_behind hminus) (hts.behind? hminus)).map
          fun _ _ he => he.opposite
      | none =>
        exact (hprimary hhead).bind fun e e' rest _ he hrest => agrees_fields_same he hrest
  · cases ts with
    | nil => exact absurd nofun hhead
    | cons t rest =>
      have ht : t.token.isNegative := by
        refine Bool.not_eq_false _ |>.mp fun hfalse => hhead ?_
        rintro _ ⟨⟩
        exact hfalse
      obtain ⟨x, htoken, hx⟩ := Token.eq_number_of_isNegative ht
      have hrest := hts.2
      rw [htoken] at hrest
      exact agrees_unary_negative htoken hx hrest

/-! ### The other functions of the parser -/

/-- The two branches of a conditional, behind its question mark. Both are read by the whole parser,
on shorter lists. -/
theorem agrees_branches {condition condition' : Expr} (hcondition : SameValue condition condition')
    (hts : SignsOpen false ts)
    (hconditional : ∀ rest, rest.length ≤ ts.length → SignsOpen false rest →
      Agrees place SameValue (conditional stop rest) (conditional stop (splitSigns place rest))) :
    Agrees place SameValue (branches stop condition ts)
      (branches stop condition' (splitSigns place ts)) := by
  rw [branches, branches]
  obtain ⟨fragment, fragment', hread, hread', hsame⟩ |
    ⟨whenTrue, whenTrue', r₁, hread, hread', htrue, hr₁⟩ := hconditional ts (Nat.le_refl _) hts
  · rw [hread, hread']
    exact .fails (hsame.whenTrueOf hcondition)
  · have hlength := length_of_conditional hread
    rw [hread, hread']
    dsimp only
    rw [behind?_splitSigns_of_ne (m := .colon) (by decide)]
    cases hcolon : behind? .colon r₁ with
    | none =>
      dsimp only [Option.map]
      rw [expectedFault_splitSigns .colon hr₁]
      exact .fails (.whenFalseOf hcondition htrue (.refl _))
    | some r₂ =>
      have hlength' := length_of_behind hcolon
      dsimp only [Option.map]
      obtain ⟨fragment, fragment', hread, hread', hsame⟩ |
        ⟨whenFalse, whenFalse', r₃, hread, hread', hfalse, hr₃⟩ :=
          hconditional r₂ (by omega) (hr₁.behind? hcolon)
      · rw [hread, hread']
        exact .fails (.whenFalseOf hcondition htrue hsame)
      · rw [hread, hread']
        exact .reads (.conditional hcondition htrue hfalse) hr₃

/-- A condition, and its branches if a question mark stands behind it. A question mark is no sign,
so it is found in the same place. -/
theorem agrees_conditional
    (hchained : Agrees place SameValue (chained stop (some .disjunction) ts)
      (chained stop (some .disjunction) (splitSigns place ts)))
    (hshorter : ∀ rest, rest.length < ts.length → SignsOpen false rest →
      Agrees place SameValue (conditional stop rest) (conditional stop (splitSigns place rest))) :
    Agrees place SameValue (conditional stop ts) (conditional stop (splitSigns place ts)) := by
  rw [conditional_eq, conditional_eq]
  refine hchained.bind fun condition condition' r₁ hread hcondition hr₁ => ?_
  have hlength := length_of_chained hread
  dsimp only
  rw [behind?_splitSigns_of_ne (m := .question) (by decide)]
  cases hquestion : behind? .question r₁ with
  | none => exact .reads hcondition hr₁
  | some r₂ =>
    have hlength' := length_of_behind hquestion
    exact agrees_branches hcondition (hr₁.behind? hquestion) fun rest hle =>
      hshorter rest (by omega)

/-- One level of operators: an operand of the level that binds tighter, and the chain behind it. -/
theorem agrees_chained {level : Level}
    (htighter : Agrees place SameValue (chained stop level.tighter ts)
      (chained stop level.tighter (splitSigns place ts)))
    (hchain : ∀ left rest, rest.length < ts.length → SignsOpen true rest →
      ∀ left', SameValue left left' →
        Agrees place SameValue (chain stop level left rest)
          (chain stop level left' (splitSigns place rest))) :
    Agrees place SameValue (chained stop (some level) ts)
      (chained stop (some level) (splitSigns place ts)) := by
  rw [chained_some, chained_some]
  exact htighter.bind fun left left' rest hread hleft hrest =>
    hchain left rest (length_of_chained hread) hrest left' hleft

/-- A chain goes on for as long as operators of its level follow. Each of them stands behind an
operand, so its own minus sign is never that of a number. -/
theorem agrees_chain {level : Level} {left left' : Expr} (hleft : SameValue left left')
    (hts : SignsOpen true ts)
    (hchained : ∀ rest, rest.length < ts.length → SignsOpen false rest →
      Agrees place SameValue (chained stop level.tighter rest)
        (chained stop level.tighter (splitSigns place rest)))
    (hchain : ∀ left rest, rest.length < ts.length → SignsOpen true rest →
      ∀ left', SameValue left left' →
        Agrees place SameValue (chain stop level left rest)
          (chain stop level left' (splitSigns place rest))) :
    Agrees place SameValue (chain stop level left ts)
      (chain stop level left' (splitSigns place ts)) := by
  rw [chain_eq, chain_eq, behindOperator?_splitSigns hts]
  cases hoperator : behindOperator? level ts with
  | none => exact .reads hleft hts
  | some p =>
    obtain ⟨op, r₁⟩ := p
    have hlength := length_of_behindOperator hoperator
    dsimp only [Option.map, Prod.map, id]
    obtain ⟨fragment, fragment', hread, hread', hsame⟩ |
      ⟨right, right', r₂, hread, hread', hright, hr₂⟩ :=
        hchained r₁ hlength (hts.behindOperator? hoperator)
    · rw [hread, hread']
      exact .fails (hsame.rightOf op hleft)
    · have hlength' := length_of_chained hread
      rw [hread, hread']
      exact hchain _ r₂ (by omega) hr₂ _ (.binary op hleft hright)

/-- A call from behind its opening parenthesis on, with the closing parenthesis that it needs. -/
theorem agrees_call {s : String} (hts : SignsOpen false ts)
    (harguments : Agrees place SameValues (arguments stop ts)
      (arguments stop (splitSigns place ts))) :
    Agrees place SameValue (call stop s ts) (call stop s (splitSigns place ts)) := by
  rw [call, call, behind?_splitSigns_of_ne (m := .closeParen) (by decide)]
  cases hclose : behind? .closeParen ts with
  | some rest => exact .reads (.refl _) (hts.behind? hclose)
  | none => exact harguments.bind fun args args' rest _ hargs hrest => .reads (hargs.call s) hrest

/-- A name in front is a call if a parenthesis follows, else a name with the fields behind it. What
follows a name is behind an operand, where no sign was split off. -/
theorem agrees_named {s : String} (hts : SignsOpen true ts)
    (harguments : ∀ rest, rest.length ≤ ts.length → SignsOpen false rest →
      Agrees place SameValues (arguments stop rest) (arguments stop (splitSigns place rest))) :
    Agrees place SameValue (named stop s ts) (named stop s (splitSigns place ts)) := by
  rw [named, named]
  cases keyword? s with
  | some v => exact .reads (.refl _) hts
  | none =>
    dsimp only
    rw [behind?_splitSigns_of_ne (m := .openParen) (by decide)]
    cases hopen : behind? .openParen ts with
    | none => exact .reads (.refl _) hts
    | some rest =>
      have hlength := length_of_behind hopen
      have hrest : SignsOpen false rest := hts.behind? hopen
      exact agrees_call hrest (harguments rest (Nat.le_of_lt hlength) hrest)

/-- An expression in parentheses is read from the opening one on, by the whole parser. -/
theorem agrees_parenthesized
    (hconditional : Agrees place SameValue (conditional stop ts)
      (conditional stop (splitSigns place ts))) :
    Agrees place SameValue (parenthesized stop ts) (parenthesized stop (splitSigns place ts)) := by
  rw [parenthesized, parenthesized]
  refine hconditional.bind fun e e' r₁ _ he hr₁ => ?_
  dsimp only
  rw [behind?_splitSigns_of_ne (m := .closeParen) (by decide)]
  cases hclose : behind? .closeParen r₁ with
  | none =>
    dsimp only [Option.map]
    rw [expectedFault_splitSigns .closeParen hr₁]
    exact .fails (.after he (.refl _))
  | some r₂ => exact .reads he (hr₁.behind? hclose)

/-- An operand without signs in front of it. Where no negative number stands in front, both lists
begin with the same lexeme, and this decides on what is read. -/
theorem agrees_primary (hts : SignsOpen false ts)
    (hhead : ∀ t ∈ ts.head?, t.token.isNegative = false)
    (hconditional : ∀ rest, rest.length < ts.length → SignsOpen false rest →
      Agrees place SameValue (conditional stop rest) (conditional stop (splitSigns place rest)))
    (harguments : ∀ rest, rest.length < ts.length → SignsOpen false rest →
      Agrees place SameValues (arguments stop rest) (arguments stop (splitSigns place rest))) :
    Agrees place SameValue (primary stop ts) (primary stop (splitSigns place ts)) := by
  cases ts with
  | nil =>
    rw [splitSigns, List.flatMap_nil, primary_nil]
    exact .fails (.refl _)
  | cons t rest =>
    rw [splitSigns_cons (hhead t rfl), primary_cons, primary_cons]
    have hrest := hts.2
    cases htoken : t.token with
    | number x | text s | state s =>
      rw [htoken] at hrest
      exact .reads (.refl _) hrest
    | name s =>
      rw [htoken] at hrest
      exact agrees_named hrest fun more hle => harguments more (Nat.lt_succ_of_le hle)
    | mark m =>
      have hinside := hconditional rest (Nat.lt_succ_self _) hrest.weaken
      cases m <;> first | exact .fails (.refl _) | exact agrees_parenthesized hinside

/-- The arguments of a call are read one by one, up to a lexeme that is no comma. A fault names the
position of this lexeme, which stays where it was. -/
theorem agrees_arguments
    (hconditional : Agrees place SameValue (conditional stop ts)
      (conditional stop (splitSigns place ts)))
    (hshorter : ∀ rest, rest.length < ts.length → SignsOpen false rest →
      Agrees place SameValues (arguments stop rest) (arguments stop (splitSigns place rest))) :
    Agrees place SameValues (arguments stop ts) (arguments stop (splitSigns place ts)) := by
  rw [arguments_eq, arguments_eq]
  refine hconditional.bind fun e e' r₁ hread he hr₁ => ?_
  have hlength := length_of_conditional hread
  dsimp only
  rw [behind?_splitSigns_of_ne (m := .comma) (by decide),
    behind?_splitSigns_of_ne (m := .closeParen) (by decide)]
  cases hcomma : behind? .comma r₁ with
  | some r₂ =>
    have hlength' := length_of_behind hcomma
    dsimp only [Option.map]
    obtain ⟨fragment, fragment', hread, hread', hsame⟩ |
      ⟨args, args', r₃, hread, hread', hargs, hr₃⟩ :=
        hshorter r₂ (by omega) (hr₁.behind? hcomma)
    · rw [hread, hread']
      exact .fails (.after he hsame)
    · rw [hread, hread']
      exact .reads (.cons he hargs) hr₃
  | none =>
    dsimp only [Option.map]
    cases hclose : behind? .closeParen r₁ with
    | some r₂ => exact .reads (.singleton he) (hr₁.behind? hclose)
    | none =>
      dsimp only
      rw [expectedFault_splitSigns .closeParenOrComma hr₁]
      exact .fails (.after he (.refl _))

/-- The parser takes the same course with the signs split off. The induction is that of the descent;
a primary is the one place that must not begin with a negative number, as `unary` takes the sign
first. -/
theorem agrees (place : Nat → Nat) (stop : Nat) (hts : SignsOpen false ts) :
    Agrees place SameValue (conditional stop ts) (conditional stop (splitSigns place ts)) := by
  refine (induction
    (fun ts => SignsOpen false ts →
      Agrees place SameValue (conditional stop ts) (conditional stop (splitSigns place ts)))
    (fun level ts => SignsOpen false ts →
      Agrees place SameValue (chained stop level ts) (chained stop level (splitSigns place ts)))
    (fun level left ts => SignsOpen true ts → ∀ left', SameValue left left' →
      Agrees place SameValue (chain stop level left ts)
        (chain stop level left' (splitSigns place ts)))
    (fun ts => SignsOpen false ts →
      Agrees place SameValue (unary stop ts) (unary stop (splitSigns place ts)))
    (fun ts => SignsOpen false ts → (∀ t ∈ ts.head?, t.token.isNegative = false) →
      Agrees place SameValue (primary stop ts) (primary stop (splitSigns place ts)))
    (fun ts => SignsOpen false ts →
      Agrees place SameValues (arguments stop ts) (arguments stop (splitSigns place ts)))
    ?_ ?_ ?_ ?_ ?_ ?_ ?_ ts).1 hts
  · exact fun ts hchained hshorter hts => agrees_conditional (hchained hts) hshorter
  · intro ts hunary hts
    rw [chained_none, chained_none]
    exact hunary hts
  · exact fun level ts htighter hchain hts => agrees_chained (htighter hts) hchain
  · exact fun level left ts hchained hchain hts left' hleft =>
      agrees_chain hleft hts hchained hchain
  · exact fun ts hshorter hprimary hts => agrees_unary hts hshorter (hprimary hts)
  · exact fun ts hconditional harguments hts hhead =>
      agrees_primary hts hhead hconditional harguments
  · exact fun ts hconditional hshorter hts => agrees_arguments (hconditional hts) hshorter

end Descent

/-! ### Whole sources -/

/-- Lexemes have the same result with the signs of their negative numbers split off, errors
included: a fault is at the same position, and what is left over behind an expression is no negative
number. -/
theorem run_parse_splitSigns (place : Nat → Nat) (stop : Nat) (hts : SignsOpen false ts)
    (c : Context) : run (parse stop (splitSigns place ts)) c = run (parse stop ts) c := by
  cases ts with
  | nil => rfl
  | cons t rest =>
    obtain ⟨u, us, hsplit⟩ := exists_splitSigns_cons place t rest
    have hagrees := Descent.agrees place stop hts
    rw [hsplit] at hagrees ⊢
    rw [Descent.parse_cons, Descent.parse_cons]
    obtain ⟨fragment, fragment', hread, hread', hsame⟩ |
      ⟨e, e', more, hread, hread', he, hmore⟩ := hagrees
    · rw [hread, hread']
      exact congrArg Except.error (hsame.error c).symm
    · rw [hread, hread']
      cases more with
      | nil => exact (he c).symm
      | cons v more =>
        -- the lexeme left over stands behind an operand, so it is the same one
        rw [splitSigns_cons hmore.not_isNegative]
        exact congrArg Except.error ((Fragment.Same.after he (.refl _)).error c).symm

/-- **Negative literals are transparent**: the result of a source in a context, be it a value or an
error with its position, is that of its lexemes with every negative number replaced by a minus sign
in its place and the positive number, wherever the positive numbers are said to stand. After that
there are no negative numbers left. -/
theorem evaluate_splitSigns (place : Nat → Nat) (source : String) (c : Context) :
    (evaluate source c =
      match tokenize source with
      | .error error => .error (.malformed error)
      | .ok ts => run (parse source.utf8ByteSize (splitSigns place ts)) c) ∧
    ∀ ts, ∀ t ∈ splitSigns place ts, t.token.isNegative = false := by
  refine ⟨?_, fun _ _ => not_isNegative_of_mem_splitSigns⟩
  rw [evaluate, read]
  cases hts : tokenize source with
  | error error => rfl
  | ok ts =>
    have hopen : SignsOpen false ts := signsOpen_of_lexemes hts
    exact (run_parse_splitSigns place _ hopen c).symm

-- the first minus sign is a mark already, the second one is split off
example : (tokenize "n -1 * -2.x").map (splitSigns id) = .ok [
    ⟨.name "n", 0⟩, ⟨.mark .minus, 2⟩, ⟨.number 1, 3⟩, ⟨.mark .times, 5⟩,
    ⟨.mark .minus, 7⟩, ⟨.number 2, 7⟩, ⟨.mark .dot, 9⟩, ⟨.name "x", 10⟩] := by
  decide +kernel

end ProcedureChart.Expr
