import ProcedureChart.Generate.Attempt
import ProcedureChart.Proofs.Expr.Halting
import ProcedureChart.Proofs.FixedPoint

/-!
# Attempts that may not come back

An attempt evaluates formulas: those of derived fields and variables, the conditions of the chart,
and what skips and decisions ask on its walk. If one of them searches for a divisor that is never
found, the attempt does not come back. `performAttempt` takes the steps of an attempt with such
evaluations in it. It has the outcome of `attempt` or none, and has it where each formula that the
attempt may evaluate comes back (`Plan.settles_performAttempt`).
-/

noncomputable section

namespace ProcedureChart

variable {Q : Prop}

/-! ### Conditions -/

namespace Formula

/-- Finds out whether a formula has a true value, which may not come back. -/
def performHolds (f : Formula) (c : Context) : Option Bool :=
  (f.perform c).map fun
    | .ok v => v.truthy
    | .error _ => false

/-- A formula is found true or not wherever its evaluation comes back. An error is no true value,
and it does come back. -/
theorem settles_performHolds {f : Formula} {c : Context} (h : Settles Q (f.perform c) (f.eval c)) :
    Settles Q (f.performHolds c) (f.holds c) := by
  unfold performHolds holds
  exact h.map _

end Formula

/-- Tests some things from left to right until one fails. -/
def performAll {α : Type} (test : α → Option Bool) : List α → Option Bool
  | [] => some true
  | a :: rest => (test a).bind fun passed => if passed then performAll test rest else some false

/-- Tests are made up to the first one that fails, so what stands behind it need not come back. -/
theorem settles_performAll {α : Type} {test : α → Option Bool} {p : α → Bool} {l : List α}
    (h : ∀ a ∈ l, Settles Q (test a) (p a)) : Settles Q (performAll test l) (l.all p) := by
  induction l with
  | nil => exact .some _ _
  | cons a rest ih =>
    obtain ⟨ha, hrest⟩ := List.forall_mem_cons.1 h
    rw [List.all_cons]
    refine ha.bind ?_
    cases p a with
    | true => exact ih hrest
    | false => exact .some _ _

/-! ### Resolving named formulas -/

namespace FixedPoint

variable {ε : Type} {perform : ε → Scope → Evaluation Value}
  {eval : ε → Scope → Except Expr.EvalError Value}

/-- One pass over the entries. -/
def performPass (perform : ε → Scope → Evaluation Value) :
    List (String × ε) → Pass ε → Evaluation (Pass ε)
  | [], p => some (.ok p)
  | (name, formula) :: rest, p => Option.bind (perform formula p.scope) fun
    | .ok v => performPass perform rest { p with scope := p.scope.insert name v }
    | .error error =>
      if error.errorClass = .name then
        performPass perform rest
          { p with waiting := (name, formula) :: p.waiting, error := some error }
      else some (.error error)

/-- Up to `passes` passes over the entries. -/
def performIn (perform : ε → Scope → Evaluation Value) :
    (passes : Nat) → List (String × ε) → Scope → Evaluation Scope
  | _, [], scope => some (.ok scope)
  | 0, _ :: _, scope => some (.ok scope)
  | passes + 1, entries, scope => (performPass perform entries ⟨scope, [], none⟩).bind fun p =>
    match p.error with
    | some error =>
      if p.waiting.length = entries.length then some (.error error)
      else performIn perform passes p.waiting.reverse p.scope
    | none => some (.ok p.scope)

/-- Evaluates all entries. -/
def performResolve (perform : ε → Scope → Evaluation Value) (entries : List (String × ε))
    (scope : Scope) : Evaluation Scope :=
  performIn perform entries.length entries scope

/-- A pass comes back if each formula does in any scope. In what scope a formula is evaluated
depends on the values that were found before it. -/
theorem settles_performPass {entries : List (String × ε)}
    (h : ∀ entry ∈ entries, ∀ scope, Settles Q (perform entry.2 scope) (eval entry.2 scope))
    (p : Pass ε) : Settles Q (performPass perform entries p) (pass eval entries p) := by
  induction entries generalizing p with
  | nil => exact .some _ _
  | cons entry rest ih =>
    obtain ⟨hentry, hrest⟩ := List.forall_mem_cons.1 h
    rw [performPass, pass]
    refine (hentry p.scope).bind ?_
    cases eval entry.2 p.scope with
    | ok v => exact ih hrest _
    | error error =>
      dsimp only
      split
      · exact ih hrest _
      · exact .some _ _

/-- Passes are made until nothing is left to resolve, an error ends them, or there are none left.
Later passes go over entries of the first one, so the hypothesis on the entries holds for them as
well. -/
theorem settles_performIn (passes : Nat) {entries : List (String × ε)}
    (h : ∀ entry ∈ entries, ∀ scope, Settles Q (perform entry.2 scope) (eval entry.2 scope))
    (scope : Scope) :
    Settles Q (performIn perform passes entries scope) (resolveIn eval passes entries scope) := by
  induction passes generalizing entries scope with
  | zero => cases entries <;> exact .some _ _
  | succ passes ih =>
    cases entries with
    | nil => exact .some _ _
    | cons entry rest =>
      simp only [performIn, resolveIn]
      refine (settles_performPass h _).bind ?_
      cases hpass : pass eval (entry :: rest) ⟨scope, [], none⟩ with
      | error error => exact .some _ _
      | ok p =>
        dsimp only
        cases p.error with
        | none => exact .some _ _
        | some error =>
          dsimp only
          split
          · exact .some _ _
          · refine ih (fun waits hwaits => h waits ?_) _
            exact (mem_of_mem_waiting hpass waits (List.mem_reverse.1 hwaits)).resolve_left
              List.not_mem_nil

/-- All named formulas are resolved in as many passes as there are formulas, each of which comes
back if the formulas do. -/
theorem settles_performResolve {entries : List (String × ε)}
    (h : ∀ entry ∈ entries, ∀ scope, Settles Q (perform entry.2 scope) (eval entry.2 scope))
    (scope : Scope) :
    Settles Q (performResolve perform entries scope) (resolve eval entries scope) :=
  settles_performIn _ h scope

end FixedPoint

/-! ### Walks -/

/-- The formulas that a walk may evaluate at a node. -/
def Node.formulas : Node → List Formula
  | .decision d =>
    (d.skip?.map Skip.condition).toList ++ (d.correctAnswer.map Answer.formula).toList
  | .checkpoint n => (n.openSkip?.map Skip.condition).toList
  | .terminal _ | .instruction _ | .milestone _ | .embellishment _ => []

/-- Finds out whether a skip rule applies. -/
def Skip.performTaken (skip : Option Skip) (ctx : Context) : Option (Option (Option String)) :=
  match skip with
  | none => some (some none)
  | some skip => (skip.condition.perform ctx).map fun
    | .error _ => none
    | .ok v => some (if v.truthy then some skip.target else none)

/-- Whether a skip is taken is asked of its condition alone, and without a skip nothing is asked. -/
theorem Skip.settles_performTaken {skip : Option Skip} {ctx : Context}
    (h : ∀ f ∈ (skip.map Skip.condition).toList, Settles Q (f.perform ctx) (f.eval ctx)) :
    Settles Q (performTaken skip ctx) (taken? skip ctx) := by
  cases skip with
  | none => exact .some _ _
  | some skip =>
    unfold performTaken taken?
    exact (h skip.condition (List.mem_singleton.2 rfl)).map _

namespace Chart

variable {c : Chart} {ctx : Context} {hint : Option (List String)}

/-- Finds the place of the option that is taken at a decision. -/
def performChoice (c : Chart) (id : String) (d : Decision) (ctx : Context)
    (hint : Option (List String)) : Option (Option Nat) :=
  if d.excludeFromExampleStructure then some (some 0)
  else
    match d.correctAnswer with
    | some answer => (answer.formula.perform ctx).map fun
      | .error _ => none
      | .ok result => d.select? answer.mode result
    | none => some (some ((c.hintedOption? id d hint).getD 0))

/-- The choice of an option asks for the answer of the decision. Without an answer the hint is
looked at, and no formula is evaluated. -/
theorem settles_performChoice {id : String} {d : Decision}
    (h : ∀ f ∈ (d.correctAnswer.map Answer.formula).toList,
      Settles Q (f.perform ctx) (f.eval ctx)) :
    Settles Q (c.performChoice id d ctx hint) (c.chosenOption? id d ctx hint) := by
  unfold performChoice chosenOption?
  split
  · exact .some _ _
  · cases hanswer : d.correctAnswer with
    | none => exact .some _ _
    | some answer =>
      rw [hanswer] at h
      exact (h answer.formula (List.mem_singleton.2 rfl)).map _

/-- Finds out where a decision leads. -/
def performDecision (c : Chart) (id : String) (d : Decision) (ctx : Context)
    (hint : Option (List String)) : Option (Option String) :=
  (Skip.performTaken d.skip? ctx).bind fun
    | none => some none
    | some (some target) => some (some target)
    | some none => (c.performChoice id d ctx hint).map fun choice => do
      let index ← choice
      let o ← d.options[index]?
      c.optionTarget? id index o

/-- A decision asks for its skip first, and then for its answer if the skip is not taken. -/
theorem settles_performDecision {id : String} {d : Decision}
    (h : ∀ f ∈ (Node.decision d).formulas, Settles Q (f.perform ctx) (f.eval ctx)) :
    Settles Q (c.performDecision id d ctx hint) (c.decisionSuccessor? id d ctx hint) := by
  obtain ⟨hskip, hanswer⟩ := List.forall_mem_append.1 h
  unfold performDecision decisionSuccessor?
  refine (Skip.settles_performTaken hskip).bind ?_
  rcases Skip.taken? d.skip? ctx with _ | _ | target
  · exact .some _ _
  · exact (settles_performChoice hanswer).map _
  · exact .some _ _

/-- Finds out where a checkpoint leads. -/
def performCheckpoint (c : Chart) (id : String) (n : Checkpoint) (ctx : Context) :
    Option (Option String) :=
  (Skip.performTaken n.openSkip? ctx).bind fun
    | none => some none
    | some (some target) => some (some target)
    | some none => some (c.nextOf? id)

/-- A checkpoint asks for its skip only. What it expects of the learner is not evaluated on a
walk. -/
theorem settles_performCheckpoint {id : String} {n : Checkpoint}
    (h : ∀ f ∈ (Node.checkpoint n).formulas, Settles Q (f.perform ctx) (f.eval ctx)) :
    Settles Q (c.performCheckpoint id n ctx) (c.checkpointSuccessor? id n ctx) := by
  unfold performCheckpoint checkpointSuccessor?
  refine (Skip.settles_performTaken h).bind ?_
  rcases Skip.taken? n.openSkip? ctx with _ | _ | target <;> exact .some _ _

/-- Finds out where a node leads. -/
def performSuccessor (c : Chart) (id : String) (node : Node) (ctx : Context)
    (hint : Option (List String)) : Option (Option String) :=
  match node with
  | .terminal _ => some none
  | .decision d => c.performDecision id d ctx hint
  | .checkpoint n => c.performCheckpoint id n ctx
  | .instruction _ | .milestone _ | .embellishment _ => some (c.nextOf? id)

/-- Going on from a node evaluates the formulas of this node and no others. -/
theorem settles_performSuccessor {id : String} {node : Node}
    (h : ∀ f ∈ node.formulas, Settles Q (f.perform ctx) (f.eval ctx)) :
    Settles Q (c.performSuccessor id node ctx hint) (c.successor? id node ctx hint) := by
  cases node with
  | terminal | instruction | milestone | embellishment => exact .some _ _
  | decision d => exact settles_performDecision h
  | checkpoint n => exact settles_performCheckpoint h

/-- Walks from a node on. -/
def performWalkFrom (c : Chart) (ctx : Context) (hint : Option (List String)) :
    (steps : Nat) → (seen : List String) → (id : String) → Option (Option (List String))
  | 0, _, _ => some none
  | steps + 1, seen, id =>
    if seen.contains id then some none
    else
      match c.node? id with
      | none => some none
      | some (.terminal _) => some (some [id])
      | some node => (c.performSuccessor id node ctx hint).bind fun
        | none => some none
        | some next => (performWalkFrom c ctx hint steps (id :: seen) next).map (·.map (id :: ·))

/-- Walks through a chart. -/
def performWalk (c : Chart) (ctx : Context) (hint : Option (List String)) :
    Option (Option (List String)) :=
  performWalkFrom c ctx hint c.definition.nodes.size [] c.entry

/-- A walk comes back if the formulas of all nodes do. It visits no node twice, so its length is no
matter. -/
theorem settles_performWalk
    (h : ∀ id node, c.node? id = some node → ∀ f ∈ node.formulas,
      Settles Q (f.perform ctx) (f.eval ctx)) :
    Settles Q (c.performWalk ctx hint) (c.walk ctx hint) := by
  have hfrom : ∀ steps seen id,
      Settles Q (c.performWalkFrom ctx hint steps seen id) (c.walkFrom ctx hint steps seen id) := by
    intro steps
    induction steps with
    | zero => exact fun _ _ => .some _ _
    | succ steps ih =>
      intro seen id
      have hstep : ∀ node, c.node? id = some node →
          Settles Q ((c.performSuccessor id node ctx hint).bind fun
            | none => some none
            | some next =>
              (c.performWalkFrom ctx hint steps (id :: seen) next).map (·.map (id :: ·)))
          (match c.successor? id node ctx hint with
            | none => none
            | some next => (c.walkFrom ctx hint steps (id :: seen) next).map (id :: ·)) := by
        intro node hnode
        refine (settles_performSuccessor (h id node hnode)).bind ?_
        cases c.successor? id node ctx hint with
        | none => exact .some _ _
        | some next => exact (ih _ _).map _
      unfold performWalkFrom walkFrom
      split
      · exact .some _ _
      · cases hnode : c.node? id with
        | none => exact .some _ _
        | some node =>
          cases node with
          | terminal => exact .some _ _
          | decision | checkpoint | instruction | milestone | embellishment => exact hstep _ hnode
  exact hfrom _ _ _

end Chart

/-! ### Attempts -/

/-- The formulas that an attempt at a target may evaluate. -/
inductive Plan.Evaluates (p : Plan) (t : Target) : Formula → Prop
  | derived {entry : String × Formula} (h : entry ∈ p.chart.definition.derived.entries) :
    Evaluates p t entry.2
  | computed {entry : String × Formula} (h : entry ∈ p.chart.definition.computed.entries) :
    Evaluates p t entry.2
  | validation {f : Formula} (h : f ∈ p.chart.definition.problemInput.validation) : Evaluates p t f
  | constraint {f : Formula} (h : f ∈ p.chart.definition.constraints.values) : Evaluates p t f
  | node {id : String} {node : Node} {f : Formula} (h : p.chart.node? id = some node)
    (hf : f ∈ node.formulas) : Evaluates p t f
  | route {k : RouteConstraint} (h : k ∈ t.route.constraints) : Evaluates p t k.formula

/-- Finds out whether a constraint holds. -/
def RouteConstraint.performSatisfied (k : RouteConstraint) (ctx : Context) : Option Bool :=
  (k.formula.perform ctx).map fun
    | .error _ => false
    | .ok result => k.admits result

/-- A constraint of a route is checked wherever its formula comes back. -/
theorem RouteConstraint.settles_performSatisfied {k : RouteConstraint} {ctx : Context}
    (h : Settles Q (k.formula.perform ctx) (k.formula.eval ctx)) :
    Settles Q (k.performSatisfied ctx) (k.satisfied ctx) := by
  unfold performSatisfied satisfied
  exact h.map _

namespace Plan

variable {p : Plan} {t : Target}

/-- Computes the derived fields of a problem. -/
def performDerive (p : Plan) (values : Scope) : Evaluation Scope :=
  FixedPoint.performResolve (fun f values => f.perform (p.context values .empty))
    p.chart.definition.derived.entries values

/-- Computes the variables of a problem. -/
def performCompute (p : Plan) (values : Scope) : Evaluation Scope :=
  FixedPoint.performResolve (fun f computed => f.perform (p.context values computed))
    p.chart.definition.computed.entries .empty

/-- Judges the walk of a problem. -/
def performJudgeWalk (p : Plan) (t : Target) (values : Scope) (ctx : Context) : Option Attempt :=
  (p.chart.performWalk ctx (some t.route.nodeIds)).bind fun
    | none => some (.rejected .walk)
    | some route =>
      if route = t.route.nodeIds then
        (performAll (·.performSatisfied ctx) t.route.constraints).map fun replays =>
          if replays then .onTarget (.ofRoute t.route values) else .rejected .replay
      else some (.offTarget (p.exampleOf route values))

/-- Judges a problem with its variables. -/
def performPermit (p : Plan) (t : Target) (values computed : Scope) : Option Attempt :=
  let d := p.chart.definition
  let ctx := p.context values computed
  (performAll (·.performHolds ctx) d.problemInput.validation.toList).bind fun valid =>
    if !valid then some (.rejected .validation)
    else (performAll (·.performHolds ctx) d.constraints.values).bind fun permitted =>
      if !permitted then some (.rejected .constraint) else p.performJudgeWalk t values ctx

/-- Judges a candidate by the values of its independent fields. -/
def performJudge (p : Plan) (t : Target) (drawn : Scope) : Option Attempt :=
  Option.bind (p.performDerive drawn) fun
    | .error _ => some (.rejected .derivation)
    | .ok values => Option.bind (p.performCompute values) fun
      | .error _ => some (.rejected .computation)
      | .ok computed => p.performPermit t values computed

/-- The walk of a problem is judged by the nodes on it, and where it is the intended one by the
constraints of the route as well. -/
theorem settles_performJudgeWalk {values : Scope} {ctx : Context}
    (h : ∀ f, p.Evaluates t f → Settles Q (f.perform ctx) (f.eval ctx)) :
    Settles Q (p.performJudgeWalk t values ctx) (p.judgeWalk t values ctx) := by
  unfold performJudgeWalk judgeWalk
  refine (Chart.settles_performWalk fun id node hnode f hf => h f (.node hnode hf)).bind ?_
  cases p.chart.walk ctx (some t.route.nodeIds) with
  | none => exact .some _ _
  | some route =>
    dsimp only
    split
    · exact (settles_performAll fun k hk =>
        RouteConstraint.settles_performSatisfied (h k.formula (.route hk))).map _
    · exact .some _ _

/-- Validation comes first, the constraints of the chart next and the walk last; each of them is
reached only if the ones before it hold. -/
theorem settles_performPermit {values computed : Scope}
    (h : ∀ f, p.Evaluates t f → ∀ ctx, Settles Q (f.perform ctx) (f.eval ctx)) :
    Settles Q (p.performPermit t values computed)
      (let d := p.chart.definition
      let ctx := p.context values computed
      if !d.problemInput.validation.all fun f => f.holds ctx then .rejected .validation
      else if !d.constraints.values.all fun f => f.holds ctx then .rejected .constraint
      else p.judgeWalk t values ctx) := by
  have hlist : ∀ (o : Option Formula) (test : Formula → Bool), o.toList.all test = o.all test := by
    rintro (_ | f) test
    · rfl
    · exact Bool.and_true _
  unfold performPermit
  dsimp only
  rw [← hlist]
  refine (settles_performAll fun f hf =>
    Formula.settles_performHolds (h f (.validation (Option.mem_toList.1 hf)) _)).bind ?_
  split
  · exact .some _ _
  · refine (settles_performAll fun f hf =>
      Formula.settles_performHolds (h f (.constraint hf) _)).bind ?_
    split
    · exact .some _ _
    · exact settles_performJudgeWalk fun f hf => h f hf _

/-- A candidate gets its derived fields and its variables before it is judged, and is rejected where
they have an error. -/
theorem settles_performJudge
    (h : ∀ f, p.Evaluates t f → ∀ ctx, Settles Q (f.perform ctx) (f.eval ctx)) (drawn : Scope) :
    Settles Q (p.performJudge t drawn) (p.judge t drawn) := by
  have hderive : Settles Q (p.performDerive drawn) (p.derive? drawn) :=
    FixedPoint.settles_performResolve (fun entry hentry _ => h entry.2 (.derived hentry) _) drawn
  have hcompute : ∀ values, Settles Q (p.performCompute values) (p.compute? values) := fun values =>
    FixedPoint.settles_performResolve (fun entry hentry _ => h entry.2 (.computed hentry) _) .empty
  unfold performJudge judge
  refine Settles.bind hderive ?_
  cases p.derive? drawn with
  | error error => exact .some _ _
  | ok values =>
    refine Settles.bind (hcompute values) ?_
    dsimp only
    cases p.compute? values with
    | error error => exact .some _ _
    | ok computed => exact settles_performPermit h

variable {σ : Type} [RandomSource σ]

/-- Makes an attempt at an example of a route, which may not come back. -/
def performAttempt (p : Plan) (t : Target) (s : σ) : Option (Attempt × σ) :=
  match FieldPlan.drawAll p.config.preferredBias t.fields .empty s with
  | (none, s) => some (.rejected .noValue, s)
  | (some drawn, s) => (p.performJudge t drawn).map (·, s)

/-- **An attempt comes back with its outcome** or not at all, and it comes back if every formula
that it may evaluate does. Drawing evaluates no formula, so it always comes back; what is drawn does
not matter, since the formulas are to come back in any context. -/
theorem settles_performAttempt (p : Plan) (t : Target) (s : σ) :
    Settles (∀ f, p.Evaluates t f → ∀ ctx, (f.perform ctx).isSome) (p.performAttempt t s)
      (p.attempt t s) := by
  unfold performAttempt attempt
  rcases FieldPlan.drawAll p.config.preferredBias t.fields .empty s with ⟨_ | drawn, s⟩
  · exact .some _ _
  · exact (settles_performJudge (fun f hf ctx =>
      (f.settles_perform ctx).isSome.mono fun h => h f hf ctx) drawn).map _

/-- So an attempt comes back if none of these formulas searches for a divisor. -/
theorem performAttempt_eq_some {p : Plan} {t : Target}
    (h : ∀ f, p.Evaluates t f → f.searches = false) (s : σ) :
    p.performAttempt t s = some (p.attempt t s) := by
  refine (p.settles_performAttempt t s).eq_some fun f hf ctx => ?_
  rw [(f.settles_perform ctx).eq_some (h f hf), Option.isSome_some]

end Plan

end ProcedureChart

end
