import Mathlib.Control.Monad.Basic
import ProcedureChart.Proofs.Expr.Agreement
import ProcedureChart.Proofs.Expr.Soundness

/-!
# Growing contexts

What becomes of a result when more names get values. A name that has no value yet may get one, and
then anything may come of it; every other result, value or error, stays as it is, as long as the
names that had a value keep it (`Formula.eval_refines`). Only the names that are mentioned matter;
in particular, a context that extends another one keeps all of its results
(`Expr.evaluate_of_extends`).
-/

namespace ProcedureChart

namespace Expr

mutual

/-- The bare names that an expression mentions. -/
def names : Expr → List String
  | .literal _ | .state _ => []
  | .name s => [s]
  | .field e _ | .negation e | .opposite e => e.names
  | .call _ args => namesOfAll args
  | .binary _ left right => left.names ++ right.names
  | .conditional condition whenTrue whenFalse =>
    condition.names ++ (whenTrue.names ++ whenFalse.names)

/-- The bare names that some expressions mention. -/
def namesOfAll : List Expr → List String
  | [] => []
  | e :: rest => e.names ++ namesOfAll rest

end

/-- Whether an error is that of a name without a value. -/
def EvalError.isUnbound : EvalError → Bool
  | .unknownName _ | .unknownState _ => true
  | .malformed _ | .unknownFunction _ | .arity .. | .noField .. => false

theorem EvalError.errorClass_of_isUnbound {error : EvalError} (h : error.isUnbound) :
    error.errorClass = .name := by
  cases error <;> first | rfl | cases h

/-! ### Results that stay -/

section

variable {α β : Type}

/-- A result is that of an earlier evaluation, unless a name had no value there. -/
def Refines (r r' : Except EvalError α) : Prop :=
  r' = r ∨ ∃ error, r = .error error ∧ error.isUnbound

theorem Refines.refl (r : Except EvalError α) : Refines r r := .inl rfl

theorem Refines.bind {r r' : Except EvalError α} {f f' : α → Except EvalError β}
    (h : Refines r r') (hf : ∀ a, Refines (f a) (f' a)) : Refines (r.bind f) (r'.bind f') := by
  obtain rfl | ⟨error, rfl, hunbound⟩ := h
  · cases r' with
    | error error => exact .refl _
    | ok a => exact hf a
  · exact .inr ⟨error, rfl, hunbound⟩

theorem Refines.map {r r' : Except EvalError α} (h : Refines r r') (f : α → β) :
    Refines (r.map f) (r'.map f) := by
  obtain rfl | ⟨error, rfl, hunbound⟩ := h
  · exact .refl _
  · exact .inr ⟨error, rfl, hunbound⟩

end

end Expr

/-- Another context gives the values of a context to some bare names and to all state variables. -/
structure Context.Keeps (c c' : Context) (names : List String) : Prop where
  bare : ∀ s ∈ names, ∀ v, c.lookup s = some v → c'.lookup s = some v
  state : ∀ s v, c.lookupState s = some v → c'.lookupState s = some v

theorem Context.Keeps.mono {c c' : Context} {names names' : List String} (h : c.Keeps c' names)
    (hsub : names' ⊆ names) : c.Keeps c' names' :=
  ⟨fun s hs => h.bare s (hsub hs), h.state⟩

theorem Context.keeps_append {c c' : Context} {names names' : List String} :
    c.Keeps c' (names ++ names') ↔ c.Keeps c' names ∧ c.Keeps c' names' := by
  constructor
  · intro h
    exact ⟨h.mono (List.subset_append_left _ _), h.mono (List.subset_append_right _ _)⟩
  · rintro ⟨h, h'⟩
    refine ⟨fun s hs => ?_, h.state⟩
    rcases List.mem_append.1 hs with hs | hs
    · exact h.bare s hs
    · exact h'.bare s hs

namespace Expr

variable {c c' : Context}

mutual

/-- The result of an expression stays. A name without a value ends the evaluation, so whatever comes
of it in the larger context refines that. -/
theorem eval_refines : ∀ (e : Expr), c.Keeps c' e.names → Refines (e.eval c) (e.eval c')
  | .literal v, _ => by
    rw [eval, eval]
    exact .refl _
  | .name s, h => by
    rw [eval, eval]
    cases hlookup : c.lookup s with
    | none => exact .inr ⟨_, rfl, rfl⟩
    | some v =>
      rw [h.bare s (by rw [names]; exact List.mem_singleton.2 rfl) v hlookup]
      exact .refl _
  | .state s, h => by
    rw [eval, eval]
    cases hlookup : c.lookupState s with
    | none => exact .inr ⟨_, rfl, rfl⟩
    | some v =>
      rw [h.state s v hlookup]
      exact .refl _
  | .field e part, h => by
    rw [names] at h
    rw [eval_field, eval_field]
    exact (eval_refines e h).bind fun v => .refl _
  | .call function args, h => by
    rw [names] at h
    rw [eval_call, eval_call]
    exact (evalAll_refines args h).bind fun vs => .refl _
  | .negation e, h => by
    rw [names] at h
    rw [eval_negation, eval_negation]
    exact (eval_refines e h).map _
  | .opposite e, h => by
    rw [names] at h
    rw [eval_opposite, eval_opposite]
    exact (eval_refines e h).map _
  | .binary op left right, h => by
    rw [names, Context.keeps_append] at h
    rw [eval_binary, eval_binary]
    refine (eval_refines left h.1).bind fun v => ?_
    cases op.settled? v with
    | some w => exact .refl _
    | none => exact (eval_refines right h.2).map _
  | .conditional condition whenTrue whenFalse, h => by
    rw [names, Context.keeps_append, Context.keeps_append] at h
    rw [eval_conditional, eval_conditional]
    refine (eval_refines condition h.1).bind fun v => ?_
    cases v.truthy with
    | true => exact eval_refines whenTrue h.2.1
    | false => exact eval_refines whenFalse h.2.2

/-- The results of the arguments of a call stay. -/
theorem evalAll_refines : ∀ (args : List Expr), c.Keeps c' (namesOfAll args) →
    Refines (evalAll c args) (evalAll c' args)
  | [], _ => by
    rw [evalAll, evalAll]
    exact .refl _
  | e :: rest, h => by
    rw [namesOfAll, Context.keeps_append] at h
    rw [evalAll_cons, evalAll_cons]
    exact (eval_refines e h.1).bind fun v => (evalAll_refines rest h.2).map _

end

/-! ### Malformed expressions -/

namespace Fragment

variable {rest : Fragment} {e : Expr}

theorem error_after : (.error ((after e rest).error c) : Except EvalError Value) =
    (e.eval c).bind fun _ => .error (rest.error c) := by
  rw [error]
  cases e.eval c <;> rfl

theorem error_rightOf (op : Operator) :
    (.error ((rightOf op e rest).error c) : Except EvalError Value) =
      (e.eval c).bind fun v =>
        .error (if (op.settled? v).isSome then .malformed rest.syntaxError else rest.error c) := by
  rw [error]
  cases e.eval c <;> rfl

theorem error_whenTrueOf : (.error ((whenTrueOf e rest).error c) : Except EvalError Value) =
    (e.eval c).bind fun v =>
      .error (if v.truthy then rest.error c else .malformed rest.syntaxError) := by
  rw [error]
  cases e.eval c <;> rfl

theorem error_whenFalseOf (whenTrue : Expr) :
    (.error ((whenFalseOf e whenTrue rest).error c) : Except EvalError Value) =
      (e.eval c).bind fun v =>
        if v.truthy then (whenTrue.eval c).bind fun _ => .error (.malformed rest.syntaxError)
        else .error (rest.error c) := by
  rw [error]
  cases e.eval c with
  | error error => rfl
  | ok v =>
    cases hv : v.truthy
    · simp [Except.bind, hv]
    · cases hwhenTrue : whenTrue.eval c <;> simp [Except.bind, hv]

/-- The error of a malformed expression stays. Its parts are evaluated as if they were whole, and
the fault itself depends on no context. -/
theorem error_refines (fragment : Fragment) (h : c.Keeps c' (fragment.parts.flatMap names)) :
    Refines (.error (fragment.error c) : Except EvalError Value) (.error (fragment.error c')) := by
  induction fragment with
  | fault error => exact .refl _
  | after e rest ih =>
    rw [parts, List.flatMap_cons, Context.keeps_append] at h
    rw [error_after, error_after]
    exact (eval_refines e h.1).bind fun _ => ih h.2
  | rightOf op e rest ih =>
    rw [parts, List.flatMap_cons, Context.keeps_append] at h
    rw [error_rightOf, error_rightOf]
    refine (eval_refines e h.1).bind fun v => ?_
    cases (op.settled? v).isSome with
    | true => exact .refl _
    | false => exact ih h.2
  | whenTrueOf e rest ih =>
    rw [parts, List.flatMap_cons, Context.keeps_append] at h
    rw [error_whenTrueOf, error_whenTrueOf]
    refine (eval_refines e h.1).bind fun v => ?_
    cases v.truthy with
    | true => exact ih h.2
    | false => exact .refl _
  | whenFalseOf e whenTrue rest ih =>
    rw [parts, List.flatMap_cons, List.flatMap_cons, Context.keeps_append, Context.keeps_append]
      at h
    rw [error_whenFalseOf, error_whenFalseOf]
    refine (eval_refines e h.1).bind fun v => ?_
    cases v.truthy with
    | true => exact (eval_refines whenTrue h.2.1).bind fun _ => .refl _
    | false => exact ih h.2.2

end Fragment

end Expr

/-! ### Formulas -/

namespace Formula

/-- The bare names that a formula mentions, as far as it can be read. -/
def names (f : Formula) : List String :=
  match f.reading with
  | .ok e => e.names
  | .error fragment => fragment.parts.flatMap Expr.names

/-- **Results stay**: in a context that keeps the values of the names a formula mentions, and of the
state variables, its result is the same, unless a name had no value before. Then it may get further,
which is what a fixed point waits for. -/
theorem eval_refines {c c' : Context} {f : Formula} (h : c.Keeps c' f.names) :
    Expr.Refines (f.eval c) (f.eval c') := by
  rw [names] at h
  rw [eval, eval]
  cases hreading : f.reading with
  | ok e =>
    rw [hreading] at h
    exact e.eval_refines h
  | error fragment =>
    rw [hreading] at h
    exact fragment.error_refines h

end Formula

/-! ### Extended contexts -/

/-- A context has all values of another one, those of the bare names and those of the state
variables. It may have more of them. -/
structure Context.Extends (c' c : Context) : Prop where
  bare : ∀ s v, c.lookup s = some v → c'.lookup s = some v
  state : ∀ s v, c.lookupState s = some v → c'.lookupState s = some v

namespace Context

theorem Extends.keeps {c c' : Context} (h : c'.Extends c) (names : List String) :
    c.Keeps c' names :=
  ⟨fun s _ => h.bare s, h.state⟩

/-- One more computed variable extends a context, if its name had no value. It could be shadowed by
the other tables otherwise, or shadow the user's state. -/
theorem extends_insert {c : Context} {name : String} (hbare : c.lookup name = none)
    (hstate : c.lookupState name = none) (v : Value) :
    { c with computed := c.computed.insert name v }.Extends c := by
  constructor
  · intro s w hs
    rcases eq_or_ne s name with rfl | hne
    · rw [hbare] at hs
      cases hs
    · rw [← hs]
      simp only [lookup, Table.get?_insert, if_neg hne]
  · intro s w hs
    rcases eq_or_ne s name with rfl | hne
    · rw [hstate] at hs
      cases hs
    · rw [← hs]
      simp only [lookupState, Table.get?_insert, if_neg hne]

end Context

namespace Expr

/-- **More bindings change no result**: an expression that does not stop at a name without a value
comes to the same value, or to the same error, in every context that extends the given one. The
names behind a fault, in a branch that is not taken or in an operand that does not count may well
have no value. -/
theorem evaluate_of_extends {c c' : Context} (h : c'.Extends c) (source : String)
    (hname : ∀ s, evaluate source c ≠ .error (.unknownName s))
    (hstate : ∀ s, evaluate source c ≠ .error (.unknownState s)) :
    evaluate source c' = evaluate source c := by
  have hrefines := Formula.eval_refines (f := .ofSource source) (h.keeps _)
  rw [Formula.eval_eq, Formula.eval_eq, Formula.source_ofSource] at hrefines
  obtain heq | ⟨error, herror, hunbound⟩ := hrefines
  · exact heq
  · cases error with
    | unknownName s => exact absurd herror (hname s)
    | unknownState s => exact absurd herror (hstate s)
    | malformed | unknownFunction | arity | noField => cases hunbound

/-- The amount `n`, and a name `k` that has no value. -/
def amountContext : Context := { problem := Table.empty.insert "n" (.number 12) }

/-- A disjunction that its left side settles does not see that `k` gets a value, and neither does
the error of a field that a number has not. -/
theorem evaluate_of_extends_amount :
    evaluate "n > 2 || k" { amountContext with computed := Table.empty.insert "k" (.bool false) } =
        .ok (.bool true) ∧
      evaluate "n.part || k" { amountContext with computed := Table.empty.insert "k" (.bool false) } =
        .error (.noField "part" "number") := by
  have hextends : { amountContext with computed := Table.empty.insert "k" (.bool false) }.Extends
      amountContext := Context.extends_insert (by decide +kernel) (by decide +kernel) _
  have hvalue : evaluate "n > 2 || k" amountContext = .ok (.bool true) := by decide +kernel
  have hfault : evaluate "n.part || k" amountContext = .error (.noField "part" "number") := by
    decide +kernel
  constructor
  · rw [evaluate_of_extends hextends _ (by simp [hvalue]) (by simp [hvalue]), hvalue]
  · rw [evaluate_of_extends hextends _ (by simp [hfault]) (by simp [hfault]), hfault]

end Expr

end ProcedureChart
