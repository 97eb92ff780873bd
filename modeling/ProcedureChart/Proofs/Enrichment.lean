import ProcedureChart.Proofs.Expr.Printing
import ProcedureChart.Proofs.Halting
import ProcedureChart.Proofs.Logs

/-!
# Raw runs that may not come back

A raw run does not come back where one of its attempts does not. `performRaw` takes its steps with
such attempts in it, and with loops that only their conditions end. It gives what `generateRaw`
gives or nothing, and where every attempt comes back, so does the run, within the bounds of
enrichment (`enrichment_generateRaw`). A single variable with an endless search keeps every run from
coming back (`not_enrichment_generateRaw`).
-/

noncomputable section

namespace ProcedureChart

variable {Q : Prop}

/-! ### Loops -/

namespace Loop

variable {α ρ : Type}

/-- A turn that may not come back, as one that always does: it ends the loop without a result where
it would not come back. -/
def attempted (turn : α → Option (ρ ⊕ α)) (a : α) : Option ρ ⊕ α :=
  match turn a with
  | none => .inl none
  | some (.inl result) => .inl (some result)
  | some (.inr next) => .inr next

/-- Takes the turns of a loop, each of which may not come back. A loop that goes on forever does not
come back either. -/
def perform (turn : α → Option (ρ ⊕ α)) (a : α) : Option ρ := (result? (attempted turn) a).join

/-- A loop comes back with what its first turn ends it with, or with what comes of the next state,
if the turn comes back at all. -/
theorem perform_eq (turn : α → Option (ρ ⊕ α)) (a : α) :
    perform turn a = (turn a).bind fun
      | .inl result => some result
      | .inr next => perform turn next := by
  rw [perform, result?_eq, attempted]
  cases turn a with
  | none => rfl
  | some turned => cases turned <;> rfl

/-- A loop that ends comes back with its result, if its turns do. -/
theorem settles_perform {turn : α → ρ ⊕ α} {performed : α → Option (ρ ⊕ α)} {a : α} {result : ρ}
    (h : Ends turn a result) (hturn : ∀ a, Settles Q (performed a) (turn a)) :
    Settles Q (perform performed a) result := by
  induction h using Ends.induct with
  | here hend =>
    rw [perform_eq]
    refine (hturn _).bind ?_
    rw [hend]
    exact .some _ _
  | after hnext hends ih =>
    rw [perform_eq]
    refine (hturn _).bind ?_
    rw [hnext]
    exact ih

end Loop

namespace Plan

variable {σ : Type} [RandomSource σ] {p : Plan} {t : Target}

/-- Takes a turn of the targeted phase. -/
def performTargetTurn (p : Plan) (t : Target) :
    Progress × σ → Option ((Progress × σ) ⊕ (Progress × σ))
  | (prog, s) =>
    if prog.report.attempts < p.config.attemptsPerPath ∧
        prog.report.hits < p.config.targetHitsPerPath then
      (p.performAttempt t s).map fun (outcome, s) => .inr (prog.countAttempt.take outcome, s)
    else some (.inl (prog, s))

/-- Takes a turn of enrichment. -/
def performEnrichTurn (p : Plan) (t : Target) :
    Progress × Nat × σ → Option ((Progress × σ) ⊕ (Progress × Nat × σ))
  | (prog, failures, s) =>
    if countOf t.signature prog.pool < p.config.enrichmentTarget ∧
        failures < p.config.maxConsecutiveFailures then
      (p.performAttempt t s).map fun (outcome, s) =>
        .inr (prog.countEnrichment.take outcome, if outcome.isOnTarget then 0 else failures + 1, s)
    else some (.inl (prog, s))

/-- Goes through the targeted phase over some routes. -/
def performTargetAll (p : Plan) : List Target → (pool : List Example) → σ →
    Option ((List RouteReport × List Example) × σ)
  | [], pool, s => some (([], pool), s)
  | t :: rest, pool, s =>
    (Loop.perform (p.performTargetTurn t)
        (⟨pool, { signature := t.signature, label := t.route.descriptor }⟩, s)).bind fun (prog, s) =>
      (performTargetAll p rest prog.pool s).map fun ((reports, pool), s) =>
        ((prog.report :: reports, pool), s)

/-- Goes through the enrichment phase over some routes. -/
def performEnrichAll (p : Plan) : List (Target × RouteReport) → (pool : List Example) → σ →
    Option ((List RouteReport × List Example) × σ)
  | [], pool, s => some (([], pool), s)
  | (t, report) :: rest, pool, s =>
    (Loop.perform (p.performEnrichTurn t) (⟨pool, report⟩, 0, s)).bind fun (prog, s) =>
      (performEnrichAll p rest prog.pool s).map fun ((reports, pool), s) =>
        ((prog.report :: reports, pool), s)

/-- Goes through a raw run, which may not come back. -/
def performRaw (p : Plan) (indices : List Nat) (s : σ) :
    Option ((List Example × List RouteReport) × σ) :=
  let targets := indices.filterMap fun i => p.targets[i]?
  (p.performTargetAll targets [] s).bind fun ((reports, pool), s) =>
    (p.performEnrichAll (targets.zip reports) pool s).map fun ((reports, pool), s) =>
      ((pool.reverse, reports), s)

/-- A turn of the targeted phase makes one attempt, or ends the phase without any. -/
theorem settles_performTargetTurn
    (h : ∀ s : σ, Settles Q (p.performAttempt t s) (p.attempt t s)) (state : Progress × σ) :
    Settles Q (p.performTargetTurn t state) (p.targetTurn t state) := by
  obtain ⟨prog, s⟩ := state
  unfold performTargetTurn targetTurn
  dsimp only
  split
  · exact (h s).map _
  · exact .some _ _

/-- A turn of enrichment makes one attempt, or ends the phase without any. -/
theorem settles_performEnrichTurn
    (h : ∀ s : σ, Settles Q (p.performAttempt t s) (p.attempt t s)) (state : Progress × Nat × σ) :
    Settles Q (p.performEnrichTurn t state) (p.enrichTurn t state) := by
  obtain ⟨prog, failures, s⟩ := state
  unfold performEnrichTurn enrichTurn
  dsimp only
  split
  · exact (h s).map _
  · exact .some _ _

/-- The targeted phase is one loop after the other, each of which ends, so it comes back if the
attempts at its targets do. -/
theorem settles_performTargetAll {targets : List Target}
    (h : ∀ t ∈ targets, ∀ s : σ, Settles Q (p.performAttempt t s) (p.attempt t s))
    (pool : List Example) (s : σ) :
    Settles Q (p.performTargetAll targets pool s) (p.targetAll targets pool s) := by
  induction targets generalizing pool s with
  | nil => exact .some _ _
  | cons t rest ih =>
    obtain ⟨ht, hrest⟩ := List.forall_mem_cons.1 h
    unfold performTargetAll targetAll
    refine (Loop.settles_perform (ends_target rfl) (settles_performTargetTurn ht)).bind ?_
    exact (ih hrest _ _).map _

/-- Enrichment is one loop after the other as well. Its loops end by two counters together, which is
what `ends_enrich` has shown. -/
theorem settles_performEnrichAll {entries : List (Target × RouteReport)}
    (h : ∀ entry ∈ entries, ∀ s : σ,
      Settles Q (p.performAttempt entry.1 s) (p.attempt entry.1 s))
    (pool : List Example) (s : σ) :
    Settles Q (p.performEnrichAll entries pool s) (p.enrichAll entries pool s) := by
  induction entries generalizing pool s with
  | nil => exact .some _ _
  | cons entry rest ih =>
    obtain ⟨hentry, hrest⟩ := List.forall_mem_cons.1 h
    unfold performEnrichAll enrichAll
    refine (Loop.settles_perform (ends_enrich rfl) (settles_performEnrichTurn hentry)).bind ?_
    exact (ih hrest _ _).map _

/-- **A raw run comes back with its pool and its accounts** or not at all, and it comes back if all
attempts do. Both phases are loops that end, so nothing but an attempt can keep them from coming
back; each of them is taken by itself, and the second one begins with what the first one came back
with. -/
theorem settles_performRaw {indices : List Nat}
    (h : ∀ t ∈ p.targets, ∀ s : σ, Settles Q (p.performAttempt t s) (p.attempt t s)) (s : σ) :
    Settles Q (p.performRaw indices s) (p.generateRaw indices s) := by
  have htargets : ∀ t ∈ indices.filterMap fun i => p.targets[i]?, t ∈ p.targets := by
    intro t ht
    obtain ⟨i, -, hi⟩ := List.mem_filterMap.1 ht
    exact List.mem_of_getElem? hi
  unfold performRaw generateRaw
  refine (settles_performTargetAll (fun t ht => h t (htargets t ht)) [] s).bind ?_
  refine (settles_performEnrichAll (fun entry hentry => ?_) _ _).map _
  exact h _ (htargets _ (List.of_mem_zip hentry).1)

/-- A raw run whose first attempt does not come back does not come back. -/
theorem performRaw_eq_none {indices : List Nat} {rest : List Target} {s : σ}
    (htargets : (indices.filterMap fun i => p.targets[i]?) = t :: rest)
    (hattempts : 0 < p.config.attemptsPerPath) (hhits : 0 < p.config.targetHitsPerPath)
    (h : p.performAttempt t s = none) : p.performRaw indices s = none := by
  have hloop : Loop.perform (p.performTargetTurn t)
      (⟨[], { signature := t.signature, label := t.route.descriptor }⟩, s) = none := by
    rw [Loop.perform_eq, performTargetTurn, if_pos ⟨hattempts, hhits⟩, h]
    rfl
  rw [performRaw, htargets, performTargetAll, hloop]
  rfl

end Plan

/-- **Enrichment is bounded and finishes its job**, whatever the plan, the places and the source,
and the run comes back if every attempt does, as when no formula searches for a divisor: what it
comes back with is the raw run in any case. The loops of both phases take finitely many turns,
wherever they begin. No account exceeds as many enrichment attempts as enrichment gives up after,
for each example that it aims at. At the end the pool has that many examples of a target, or the
last attempts of enrichment at the target, as many as it gives up after, were all off target or
rejected. -/
theorem enrichment_generateRaw {σ : Type} [RandomSource σ] (plan : Plan) (indices : List Nat)
    (s : σ) :
    let run := plan.generateRaw indices s
    ((∀ t ∈ plan.targets, ∀ s : σ, (plan.performAttempt t s).isSome) →
      plan.performRaw indices s = some run) ∧
    ((∀ t ∈ plan.targets, ∀ f, plan.Evaluates t f → f.searches = false) →
      plan.performRaw indices s = some run) ∧
    (∀ other, plan.performRaw indices s = some other → other = run) ∧
    (∀ t prog (s : σ), Loop.Ends (plan.targetTurn t) (prog, s)
      (plan.target t (plan.config.attemptsPerPath - prog.report.attempts) prog s)) ∧
    (∀ t prog failures (s : σ), Loop.Ends (plan.enrichTurn t) (prog, failures, s)
      (plan.enrich t (Plan.countOf t.signature prog.pool) failures prog s)) ∧
    (∀ r ∈ run.1.2, r.enrichmentAttempts ≤
      plan.config.enrichmentTarget * plan.config.maxConsecutiveFailures) ∧
    ∃ logs, plan.Logs (indices.filterMap fun i => plan.targets[i]?) s run logs ∧
      ∀ log ∈ logs,
        plan.config.enrichmentTarget ≤ Plan.countOf log.target.signature run.1.1 ∨
          Plan.EndsInFailures plan.config.maxConsecutiveFailures log.enriched := by
  intro run
  have hsettles : Settles (∀ t ∈ plan.targets, ∀ s : σ, (plan.performAttempt t s).isSome)
      (plan.performRaw indices s) run :=
    Plan.settles_performRaw (fun t ht s =>
      (plan.settles_performAttempt t s).isSome.mono fun h => h t ht s) s
  have hquiet : (∀ t ∈ plan.targets, ∀ f, plan.Evaluates t f → f.searches = false) →
      plan.performRaw indices s = some run := by
    refine fun h => hsettles.eq_some fun t ht s => ?_
    rw [Plan.performAttempt_eq_some (h t ht) s, Option.isSome_some]
  refine ⟨hsettles.eq_some, hquiet, hsettles.eq_of_eq_some, fun _ _ _ => Plan.ends_target rfl,
    fun _ _ _ _ => Plan.ends_enrich rfl, ?_⟩
  obtain ⟨logs, hlogs, hbounds⟩ := plan.exists_logs_generateRaw indices s
  refine ⟨?_, logs, hlogs, fun log hlog => (hbounds log hlog).2.done⟩
  intro r hr
  obtain ⟨log, hlog, htells⟩ := RouteReport.exists_tells_of_mem hlogs.reports hr
  rw [htells.enrichmentAttempts]
  exact (hbounds log hlog).2.length_le

/-! ### Charts that search -/

/-- A printed term is performed as the expression that it means. -/
theorem Formula.perform_print (quote : Expr.Quote) (e : Expr.Term) (c : Context) :
    (ofSource (e.print quote)).perform c = e.tree.perform c := by
  have hreading : (ofSource (e.print quote)).reading = .ok e.tree :=
    Expr.read_of_derives (Expr.derives_print quote e)
  rw [perform, hreading]

namespace Expr

/-- The number of one digit. -/
def digit (c : Char) (h : Numeric.isDigit c) : Term :=
  .number ⟨[c], [c], [], List.cons_ne_nil _ _, by rw [List.all_cons, h]; rfl, rfl, .inl rfl⟩

theorem perform_digit {x : Char} (h : Numeric.isDigit x) (c : Context) :
    (digit x h).tree.perform c = some (.ok (.number (numberValue [x]))) := by
  rw [digit, Term.tree, perform]

/-- The term `gcd ( x / y , 5 )`. -/
def divisorOfQuotient (x y : Term) : Term :=
  .call ⟨⟨"gcd", by decide⟩, by decide⟩ [.binary .divide x y, digit '5' (by decide)]

/-- Such a term comes back if and only if the divisor of the quotient and 5 is found. -/
theorem perform_divisorOfQuotient {x y : Char} (hx : Numeric.isDigit x) (hy : Numeric.isDigit y)
    (c : Context) :
    (divisorOfQuotient (digit x hx) (digit y hy)).tree.perform c =
      (Function.divisor? (numberValue [x] / numberValue [y]) (numberValue ['5'])).map fun divisor =>
        .ok (.number divisor) := by
  have hquotient : (Term.binary .divide (digit x hx) (digit y hy)).tree.perform c =
      some (.ok (.number (numberValue [x] / numberValue [y]))) := by
    rw [Term.tree, perform, perform_digit, perform_digit]
    rfl
  have hcall := perform_gcd hquotient (perform_digit (by decide : Numeric.isDigit '5') c)
  simp only [Value.toNumber] at hcall
  rw [divisorOfQuotient, Term.tree, Term.trees, Term.trees, Term.trees]
  exact hcall

/-- The term `gcd ( 8 / 2 , 5 )`. -/
def finiteSearch : Term := divisorOfQuotient (digit '8' (by decide)) (digit '2' (by decide))

/-- The term `gcd ( 1 / 0 , 5 )`. -/
def endlessSearch : Term := divisorOfQuotient (digit '1' (by decide)) (digit '0' (by decide))

example : endlessSearch.print .single = "gcd ( 1 / 0 , 5 )" := by decide

/-- The divisor of 8 / 2 and 5 is found, since both are finite. -/
theorem perform_finiteSearch (c : Context) : (finiteSearch.tree.perform c).isSome := by
  have hfound : (Function.divisor? (numberValue ['8'] / numberValue ['2'])
      (numberValue ['5'])).isSome := by
    rw [Function.divisor?_isSome_iff]
    decide +kernel
  rw [finiteSearch, perform_divisorOfQuotient, Option.isSome_map]
  exact hfound

/-- The quotient 1 / 0 is infinite, 5 is not 0, and the divisor of the two is never found. -/
theorem perform_endlessSearch (c : Context) : endlessSearch.tree.perform c = none := by
  have hendless : ¬(Function.divisor? (numberValue ['1'] / numberValue ['0'])
      (numberValue ['5'])).isSome := by
    rw [Function.divisor?_isSome_iff]
    decide +kernel
  rw [endlessSearch, perform_divisorOfQuotient, Option.not_isSome_iff_eq_none.1 hendless]
  rfl

end Expr

/-- A chart with a single node, nothing to draw and one variable. -/
def variableChart (e : Expr.Term) : Chart where
  definition := {
    id := "variable"
    title := "A variable"
    problemInput := { schema := "variable", fields := [] }
    entryNode := "end"
    nodes := .ofList [("end", .terminal {})]
    computed := .ofList [("g", .ofSource (e.print .single))] }
  diagram := {}
  entry_defined := rfl

/-- An attempt evaluates the variable and nothing else, if its route has no constraints. The chart
has no other formula: its only node is a terminal. -/
theorem eq_of_evaluates_variableChart {e : Expr.Term} {t : Target} {f : Formula}
    (hroute : t.route.constraints = [])
    (h : (Plan.make (variableChart e) {} {}).Evaluates t f) : f = .ofSource (e.print .single) := by
  cases h with
  | derived h | validation h | constraint h => cases h
  | computed h =>
    cases List.mem_singleton.1 h
    rfl
  | @node id node _ h hf =>
    have hterminal : node = .terminal {} := by
      by_cases hid : id = "end"
      · subst hid
        cases h
        rfl
      · have hnone : (variableChart e).node? id = none := by
          simp [Chart.node?, variableChart, Table.ofList, Table.get?_insert, hid]
        rw [show (Plan.make (variableChart e) {} {}).chart = variableChart e from rfl, hnone] at h
        cases h
    rw [hterminal] at hf
    cases hf
  | route h =>
    rw [hroute] at h
    cases h

/-- A variable `gcd ( 8 / 2 , 5 )` keeps no attempt from coming back, so raw runs come back. -/
theorem enrichment_generateRaw_divisor :
    let p := Plan.make (variableChart Expr.finiteSearch) {} {}
    (∀ t ∈ p.targets, ∀ s : Mulberry32, (p.performAttempt t s).isSome) ∧
      p.performRaw [0] (Mulberry32.ofSeed 42) = some (p.generateRaw [0] (Mulberry32.ofSeed 42)) := by
  intro p
  have hroutes : ∀ t ∈ p.targets, t.route.constraints = [] := by decide +kernel
  have hattempts : ∀ t ∈ p.targets, ∀ s : Mulberry32, (p.performAttempt t s).isSome := by
    intro t ht s
    have hback : p.performAttempt t s = some (p.attempt t s) := by
      refine (p.settles_performAttempt t s).eq_some fun f hf c => ?_
      rw [eq_of_evaluates_variableChart (hroutes t ht) hf, Formula.perform_print]
      exact Expr.perform_finiteSearch c
    rw [hback, Option.isSome_some]
  exact ⟨hattempts, (enrichment_generateRaw p [0] (Mulberry32.ofSeed 42)).1 hattempts⟩

/-- **An endless search.** With a variable `gcd ( 1 / 0 , 5 )` no raw run comes back, whatever the
source. There is nothing to draw, so the first attempt goes straight on to the variable, and the
loop that looks for the divisor has only NaN left. -/
theorem not_enrichment_generateRaw :
    let p := Plan.make (variableChart Expr.endlessSearch) {} {}
    ∀ {σ : Type} [RandomSource σ] (s : σ), p.performRaw [0] s = none := by
  intro p σ _ s
  have hlength : p.targets.length = 1 := by decide +kernel
  obtain ⟨t, ht⟩ := List.length_eq_one_iff.1 hlength
  have hfields : t.fields = [] := by
    have hmem : t ∈ p.targets := by rw [ht]; exact List.mem_singleton.2 rfl
    obtain ⟨r, -, rfl⟩ := List.mem_map.1 hmem
    rfl
  have hcompute : ∀ values, p.performCompute values = none := by
    intro values
    have hvariable : ∀ c, (Formula.ofSource (Expr.endlessSearch.print .single)).perform c = none :=
      fun c => (Formula.perform_print _ _ c).trans (Expr.perform_endlessSearch c)
    have hentries : p.chart.definition.computed.entries =
        [("g", .ofSource (Expr.endlessSearch.print .single))] := rfl
    simp only [Plan.performCompute, hentries, FixedPoint.performResolve, List.length_singleton,
      FixedPoint.performIn, FixedPoint.performPass, hvariable]
    rfl
  have hjudge : p.performJudge t .empty = none := by
    have hderive : p.performDerive .empty = some (.ok .empty) := rfl
    rw [Plan.performJudge, hderive]
    dsimp only [Option.bind_some]
    rw [hcompute]
    rfl
  have hattempt : p.performAttempt t s = none := by
    rw [Plan.performAttempt, hfields]
    dsimp only [FieldPlan.drawAll]
    exact congrArg (Option.map (·, s)) hjudge
  have htargets : ([0].filterMap fun i => p.targets[i]?) = [t] := by
    rw [ht]
    rfl
  exact Plan.performRaw_eq_none htargets (by decide) (by decide) hattempt

end ProcedureChart

end
