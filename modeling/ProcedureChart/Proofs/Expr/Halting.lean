import ProcedureChart.Proofs.Expr.Divisor
import ProcedureChart.Proofs.Expr.Stability

/-!
# Evaluations that may not come back

`eval` gives every expression a result, since a loop is equal to some number even where it goes on
forever. `perform` takes the same steps with the search itself among them, and has no result where
it does not come back. What it does come back with is the result of `eval`, and it comes back
wherever no function is called that searches for a divisor (`Formula.settles_perform`).
-/

namespace ProcedureChart

/-! ### What may not come back -/

section

variable {α β : Type} {P Q : Prop} {x : Option α} {v : α}

/-- What may not come back has one result at most, and has it under some condition. -/
structure Settles (Q : Prop) (x : Option α) (v : α) : Prop where
  eq_of_eq_some : ∀ w, x = some w → w = v
  eq_some : Q → x = some v

namespace Settles

protected theorem some (Q : Prop) (v : α) : Settles Q (some v) v where
  eq_of_eq_some _ h := (Option.some.inj h).symm
  eq_some _ := rfl

/-- A stronger condition is enough as well. -/
theorem mono (h : Settles Q x v) (hQ : P → Q) : Settles P x v :=
  ⟨h.eq_of_eq_some, fun hP => h.eq_some (hQ hP)⟩

/-- What goes on after something has come back needs to be known for its one result only. -/
theorem bind {f : α → Option β} {w : β} (h : Settles Q x v) (hf : Settles Q (f v) w) :
    Settles Q (x.bind f) w where
  eq_of_eq_some u hu := by
    obtain ⟨a, ha, hu⟩ := Option.bind_eq_some_iff.1 hu
    rw [h.eq_of_eq_some a ha] at hu
    exact hf.eq_of_eq_some u hu
  eq_some hQ := by
    rw [h.eq_some hQ]
    exact hf.eq_some hQ

/-- What is computed from a result alone comes back with it. -/
theorem map (h : Settles Q x v) (f : α → β) : Settles Q (x.map f) (f v) := by
  rw [Option.map_eq_bind]
  exact h.bind (.some Q _)

/-- What comes back comes back with its result. -/
theorem isSome (h : Settles Q x v) : Settles x.isSome x v where
  eq_of_eq_some := h.eq_of_eq_some
  eq_some hx := by
    obtain ⟨w, hw⟩ := Option.isSome_iff_exists.1 hx
    rw [hw, h.eq_of_eq_some w hw]

end Settles

/-- An evaluation that may not come back, and may come back with an error. -/
abbrev Evaluation (α : Type) : Type := Option (Except Expr.EvalError α)

namespace Evaluation

/-- Goes on with a value; an error ends the evaluation. -/
protected def bind (x : Evaluation α) (f : α → Evaluation β) : Evaluation β :=
  Option.bind x fun
    | .error error => some (.error error)
    | .ok v => f v

/-- What goes on after an evaluation settles what goes on after its result. -/
theorem settles_bind {x : Evaluation α} {r : Except Expr.EvalError α} {f : α → Evaluation β}
    {g : α → Except Expr.EvalError β} (h : Settles Q x r) (hf : ∀ v, Settles Q (f v) (g v)) :
    Settles Q (x.bind f) (r.bind g) := by
  refine Settles.bind h ?_
  cases r with
  | error error => exact .some Q _
  | ok v => exact hf v

/-- What is computed from a value alone comes back with it, and an error stays the error it is. -/
theorem settles_map {x : Evaluation α} {r : Except Expr.EvalError α} (h : Settles Q x r)
    (f : α → β) : Settles Q (Option.map (Except.map f) x) (r.map f) :=
  h.map _

end Evaluation

end

namespace Expr

/-! ### Functions -/

namespace Function

/-- Whether a function searches for a divisor. -/
def searches : Function → Bool
  | lcm | gcd => true
  | min | max | abs | floor | ceil | mod => false

/-- Computes a function, step by step where it searches for a divisor. -/
noncomputable def perform : Function → List Float → Option Float
  | gcd, [x, y] => divisor? x y
  | lcm, [x, y] => (divisor? x y).map fun divisor =>
    if divisor == 0.0 then 0.0 else (Numeric.trunc x * Numeric.trunc y).abs / divisor
  | f, xs => some (f.apply xs)

/-- A divisor that is found is the common divisor. Where none is found, the search for it goes on
forever. -/
theorem settles_divisor? (x y : Float) :
    Settles (divisor? x y).isSome (divisor? x y) (commonDivisor x y) where
  eq_of_eq_some w h := (commonDivisor_of_divisor? h).symm
  eq_some h := by
    obtain ⟨w, hw⟩ := Option.isSome_iff_exists.1 h
    rw [commonDivisor_of_divisor? hw, hw]

/-- A function comes back with its value, and comes back in any case if it searches for no
divisor. -/
theorem settles_perform (f : Function) (xs : List Float) :
    Settles (f.searches = false) (f.perform xs) (f.apply xs) := by
  unfold perform
  split
  · next x y => exact (settles_divisor? x y).mono fun h => by cases h
  · next x y => exact ((settles_divisor? x y).mono fun h => by cases h).map _
  · exact .some _ _

end Function

/-- Calls the function of a name, which may not come back. -/
noncomputable def performCall (name : String) (args : List Value) : Evaluation Value :=
  match Function.ofName? name with
  | none => some (.error (.unknownFunction name))
  | some f =>
    if f.arity.accepts args.length then
      (f.perform (args.map Value.toNumber)).map fun x => .ok (.number x)
    else some (.error (.arity name f.arity args.length))

/-- Whether the function of a name, if there is one, searches for a divisor. -/
def searchesIn (name : String) : Bool := (Function.ofName? name).any Function.searches

/-- A call of an unknown name, or with the wrong number of arguments, is an error at once, whatever
the function would do. -/
theorem settles_performCall (name : String) (args : List Value) :
    Settles (searchesIn name = false) (performCall name args) (callFunction name args) := by
  unfold performCall callFunction searchesIn
  cases Function.ofName? name with
  | none => exact .some _ _
  | some f =>
    dsimp only [Option.any_some]
    split
    · exact (f.settles_perform _).map _
    · exact .some _ _

/-! ### Expressions -/

mutual

/-- Whether an expression calls a function that searches for a divisor. -/
def searches : Expr → Bool
  | .literal _ | .name _ | .state _ => false
  | .field e _ | .negation e | .opposite e => e.searches
  | .call function args => searchesIn function || searchesInAny args
  | .binary _ left right => left.searches || right.searches
  | .conditional condition whenTrue whenFalse =>
    condition.searches || (whenTrue.searches || whenFalse.searches)

/-- Whether one of some expressions calls such a function. -/
def searchesInAny : List Expr → Bool
  | [] => false
  | e :: rest => e.searches || searchesInAny rest

end

mutual

/-- Evaluates an expression, which may not come back. -/
noncomputable def perform (c : Context) : Expr → Evaluation Value
  | .literal v => some (.ok v)
  | .name s => some ((Expr.name s).eval c)
  | .state s => some ((Expr.state s).eval c)
  | .field e part => (perform c e).bind fun v => some (readField v part)
  | .call function args => (performAll c args).bind (performCall function)
  | .negation e => (perform c e).map (Except.map fun v => .bool !v.truthy)
  | .opposite e => (perform c e).map (Except.map fun v => .number (-v.toNumber))
  | .binary op left right => (perform c left).bind fun v =>
    match op.settled? v with
    | some w => some (.ok w)
    | none => (perform c right).map (Except.map (op.apply v))
  | .conditional condition whenTrue whenFalse => (perform c condition).bind fun v =>
    if v.truthy then perform c whenTrue else perform c whenFalse

/-- Evaluates some expressions from left to right. -/
noncomputable def performAll (c : Context) : List Expr → Evaluation (List Value)
  | [] => some (.ok [])
  | e :: rest => (perform c e).bind fun v => (performAll c rest).map (Except.map (v :: ·))

end

variable {Q : Prop} {c : Context}

mutual

/-- **Evaluation comes back with its result**, and it does so if nothing searches for a divisor. The
induction is on the expression. Where an operand settles the result, or a branch is not taken, the
other one is not performed either, and it may well be one that does not come back. -/
theorem settles_perform : ∀ (e : Expr), (Q → e.searches = false) →
    Settles Q (e.perform c) (e.eval c)
  | .literal v, _ => by
    rw [perform, eval]
    exact .some _ _
  | .name s, _ => by
    rw [perform]
    exact .some _ _
  | .state s, _ => by
    rw [perform]
    exact .some _ _
  | .field e part, hQ => by
    rw [searches] at hQ
    rw [perform, eval_field]
    exact Evaluation.settles_bind (settles_perform e hQ) fun v => .some _ _
  | .call function args, hQ => by
    simp only [searches, Bool.or_eq_false_iff] at hQ
    rw [perform, eval_call]
    exact Evaluation.settles_bind (settles_performAll args fun h => (hQ h).2) fun vs =>
      (settles_performCall function vs).mono fun h => (hQ h).1
  | .negation e, hQ => by
    rw [searches] at hQ
    rw [perform, eval_negation]
    exact Evaluation.settles_map (settles_perform e hQ) _
  | .opposite e, hQ => by
    rw [searches] at hQ
    rw [perform, eval_opposite]
    exact Evaluation.settles_map (settles_perform e hQ) _
  | .binary op left right, hQ => by
    simp only [searches, Bool.or_eq_false_iff] at hQ
    rw [perform, eval_binary]
    refine Evaluation.settles_bind (settles_perform left fun h => (hQ h).1) fun v => ?_
    cases op.settled? v with
    | some w => exact .some _ _
    | none => exact Evaluation.settles_map (settles_perform right fun h => (hQ h).2) _
  | .conditional condition whenTrue whenFalse, hQ => by
    simp only [searches, Bool.or_eq_false_iff] at hQ
    rw [perform, eval_conditional]
    refine Evaluation.settles_bind (settles_perform condition fun h => (hQ h).1) fun v => ?_
    cases v.truthy with
    | true => exact settles_perform whenTrue fun h => (hQ h).2.1
    | false => exact settles_perform whenFalse fun h => (hQ h).2.2

/-- Arguments are evaluated from left to right, up to the first error. -/
theorem settles_performAll : ∀ (args : List Expr), (Q → searchesInAny args = false) →
    Settles Q (performAll c args) (evalAll c args)
  | [], _ => by
    rw [performAll, evalAll]
    exact .some _ _
  | e :: rest, hQ => by
    simp only [searchesInAny, Bool.or_eq_false_iff] at hQ
    rw [performAll, evalAll_cons]
    exact Evaluation.settles_bind (settles_perform e fun h => (hQ h).1) fun v =>
      Evaluation.settles_map (settles_performAll rest fun h => (hQ h).2) _

end

/-- A call of `gcd` comes back if and only if the divisor of its arguments is found. -/
theorem perform_gcd {x y : Expr} {v w : Value}
    (hx : x.perform c = some (.ok v)) (hy : y.perform c = some (.ok w)) :
    (call "gcd" [x, y]).perform c =
      (Function.divisor? v.toNumber w.toNumber).map fun divisor => .ok (.number divisor) := by
  simp only [perform, performAll, hx, hy]
  rfl

/-! ### Malformed expressions -/

namespace Fragment

/-- Evaluates the parts of a malformed expression that are reached, and comes to an error if each of
them comes back. -/
noncomputable def perform (c : Context) : Fragment → Evaluation Value
  | fault error => some (.error (.malformed error))
  | after e rest => (e.perform c).bind fun _ => rest.perform c
  | rightOf op left rest => (left.perform c).bind fun v =>
    if (op.settled? v).isSome then some (.error (.malformed rest.syntaxError)) else rest.perform c
  | whenTrueOf condition rest => (condition.perform c).bind fun v =>
    if v.truthy then rest.perform c else some (.error (.malformed rest.syntaxError))
  | whenFalseOf condition whenTrue rest => (condition.perform c).bind fun v =>
    if v.truthy then
      (whenTrue.perform c).bind fun _ => some (.error (.malformed rest.syntaxError))
    else rest.perform c

/-- A malformed expression has the error that comes first in it, so the parts in front of the fault
are evaluated as they are in a whole expression. -/
theorem settles_perform (fragment : Fragment) (hQ : Q → searchesInAny fragment.parts = false) :
    Settles Q (fragment.perform c) (.error (fragment.error c)) := by
  induction fragment with
  | fault error => exact .some _ _
  | after e rest ih =>
    simp only [parts, searchesInAny, Bool.or_eq_false_iff] at hQ
    rw [perform, error_after]
    exact Evaluation.settles_bind (e.settles_perform fun h => (hQ h).1) fun _ =>
      ih fun h => (hQ h).2
  | rightOf op e rest ih =>
    simp only [parts, searchesInAny, Bool.or_eq_false_iff] at hQ
    rw [perform, error_rightOf]
    refine Evaluation.settles_bind (e.settles_perform fun h => (hQ h).1) fun v => ?_
    cases (op.settled? v).isSome with
    | true => exact .some _ _
    | false => exact ih fun h => (hQ h).2
  | whenTrueOf e rest ih =>
    simp only [parts, searchesInAny, Bool.or_eq_false_iff] at hQ
    rw [perform, error_whenTrueOf]
    refine Evaluation.settles_bind (e.settles_perform fun h => (hQ h).1) fun v => ?_
    cases v.truthy with
    | true => exact ih fun h => (hQ h).2
    | false => exact .some _ _
  | whenFalseOf e whenTrue rest ih =>
    simp only [parts, searchesInAny, Bool.or_eq_false_iff] at hQ
    rw [perform, error_whenFalseOf]
    refine Evaluation.settles_bind (e.settles_perform fun h => (hQ h).1) fun v => ?_
    cases v.truthy with
    | true =>
      exact Evaluation.settles_bind (whenTrue.settles_perform fun h => (hQ h).2.1) fun _ =>
        .some _ _
    | false => exact ih fun h => (hQ h).2.2

end Fragment

end Expr

/-! ### Formulas -/

namespace Formula

/-- Whether a formula calls a function that searches for a divisor, as far as it can be read. -/
def searches (f : Formula) : Bool :=
  match f.reading with
  | .ok e => e.searches
  | .error fragment => Expr.searchesInAny fragment.parts

/-- Evaluates a formula, which may not come back. -/
noncomputable def perform (f : Formula) (c : Context) : Evaluation Value :=
  match f.reading with
  | .ok e => e.perform c
  | .error fragment => fragment.perform c

/-- **A formula comes back with its result** or not at all, and it comes back if it does not search
for a divisor. A malformed formula is performed up to its fault, since what stands in front of it
may have an error of its own. -/
theorem settles_perform (f : Formula) (c : Context) :
    Settles (f.searches = false) (f.perform c) (f.eval c) := by
  unfold searches perform eval
  cases f.reading with
  | ok e => exact e.settles_perform id
  | error fragment => exact fragment.settles_perform id

end Formula

end ProcedureChart
