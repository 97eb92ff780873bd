import Mathlib
import ProcedureChart.Generate.Run
import ProcedureChart.Proofs.Logs

/-!
# What the accounts of a raw run say

The accounts count every attempt of a run exactly once, and every example of the pool
(`accounts_generateRaw`). They count it where it was aimed at, which need not be where it went: an
example of a signature is a hit of a target of this signature or an attempt that strayed to it
(`Plan.Logs.countOf_pool`).
-/

namespace ProcedureChart

/-! ### Totals of logs -/

namespace RouteLog

/-- What counts attempts counts those of each log. -/
theorem countP_attempts (logs : List RouteLog) (q : Target × Attempt → Bool) :
    (attempts logs).countP q =
      (logs.map fun log => log.outcomes.countP fun a => q (log.target, a)).sum := by
  induction logs with
  | nil => rfl
  | cons log logs ih =>
    simp only [attempts, List.countP_append] at ih
    simp only [attempts, outcomes, targetedAttempts, enrichedAttempts, List.flatMap_cons,
      List.countP_append, List.countP_map, Function.comp_def, List.map_cons, List.sum_cons] at ih ⊢
    omega

end RouteLog

/-- Whether an attempt is rejected. -/
def Attempt.isRejected : Attempt → Bool
  | .rejected _ => true
  | .onTarget _ | .offTarget _ => false

namespace Attempt

/-- Each attempt is of one of three kinds. -/
theorem length_eq (outcomes : List Attempt) :
    outcomes.length = outcomes.countP isOnTarget + outcomes.countP isOffTarget +
      outcomes.countP isRejected := by
  induction outcomes with
  | nil => rfl
  | cons a rest ih =>
    simp only [List.length_cons, List.countP_cons, ih]
    cases a <;> simp [isOnTarget, isOffTarget, isRejected] <;> omega

/-- Those that are not rejected have an example. -/
theorem countP_isSome_example? (outcomes : List Attempt) :
    (outcomes.countP fun a => a.example?.isSome) =
      outcomes.countP isOnTarget + outcomes.countP isOffTarget := by
  induction outcomes with
  | nil => rfl
  | cons a rest ih =>
    simp only [List.countP_cons, ih]
    cases a <;> simp [isOnTarget, isOffTarget, example?] <;> omega

/-- A rejected attempt has one of the reasons. -/
theorem sum_count_rejected (outcomes : List Attempt) :
    (Rejection.all.map fun reason => outcomes.count (.rejected reason)).sum =
      outcomes.countP isRejected := by
  induction outcomes with
  | nil => rfl
  | cons a rest ih =>
    rw [List.countP_cons, ← ih]
    cases a with
    | onTarget e => simp [isRejected]
    | offTarget e => simp [isRejected]
    | rejected reason =>
      simp only [List.count_cons, List.sum_map_add]
      cases reason <;> rfl

end Attempt

namespace RouteReport

variable {r : RouteReport} {outcomes : List Attempt} {log : RouteLog}

theorem Counts.total_rejections (h : r.Counts outcomes) :
    r.rejections.total = outcomes.countP Attempt.isRejected := by
  have htotal : r.rejections.total = (Rejection.all.map r.rejections.get).sum := by
    simp [RejectionCounts.total, Rejection.all, RejectionCounts.get, Nat.add_assoc]
  rw [htotal, funext h.rejections, Attempt.sum_count_rejected]

/-- Every outcome is counted once. -/
theorem Counts.length_eq (h : r.Counts outcomes) :
    outcomes.length = r.hits + r.offTarget + r.rejections.total := by
  rw [h.total_rejections, h.hits, h.offTarget, Attempt.length_eq]

/-- So is every attempt. -/
theorem Tells.attempts_add_enrichmentAttempts (h : r.Tells log) :
    r.attempts + r.enrichmentAttempts = r.hits + r.offTarget + r.rejections.total := by
  rw [← h.length_outcomes, h.toCounts.length_eq]

end RouteReport

namespace RunReport

theorem totalAttempts_eq_sum (r : RunReport) :
    r.totalAttempts = (r.paths.map fun p => p.attempts + p.enrichmentAttempts).sum := by
  rw [totalAttempts, List.sum_eq_foldr, List.foldr_map]

theorem totalSuccesses_eq_sum (r : RunReport) :
    r.totalSuccesses = (r.paths.map fun p => p.hits + p.offTarget).sum := by
  rw [totalSuccesses, List.sum_eq_foldr, List.foldr_map]

end RunReport

/-- The hits that the accounts of a signature count. -/
def hitsOf (signature : String) (reports : List RouteReport) : Nat :=
  (reports.map fun r => if r.signature = signature then r.hits else 0).sum

/-- Whether an attempt strays to a signature: it is accepted on another route, as an example of this
signature. -/
def Attempt.straysTo (signature : String) : Attempt → Bool
  | .offTarget e => e.signature == signature
  | .onTarget _ | .rejected _ => false

namespace Plan

variable {σ : Type} [RandomSource σ] {p : Plan} {s s' : σ}

/-- An attempt adds an example of a signature where it hits a target of this signature or strays to
it. -/
theorem countOf_of_attempt {t : Target} {a : Attempt} (h : (p.attempt t s).1 = a)
    (signature : String) (pool : List Example) :
    countOf signature (a.example?.toList ++ pool) = countOf signature pool +
      ((if decide (t.signature = signature) && a.isOnTarget then 1 else 0) +
        if a.straysTo signature then 1 else 0) := by
  cases a with
  | onTarget e =>
    have hsignature : e.signature = t.signature := signature_of_attempt h
    simp [Attempt.example?, Attempt.isOnTarget, Attempt.straysTo, countOf_cons, hsignature]
  | offTarget e => simp [Attempt.example?, Attempt.isOnTarget, Attempt.straysTo, countOf_cons]
  | rejected reason => simp [Attempt.example?, Attempt.isOnTarget, Attempt.straysTo]

/-- The examples of a signature come from hits of targets of this signature, and from attempts that
stray to it. -/
theorem Makes.countOf_examples {made : List (Target × Attempt)} (h : p.Makes made s s')
    (signature : String) :
    countOf signature (made.filterMap fun a => a.2.example?) =
      made.countP (fun a => decide (a.1.signature = signature) && a.2.isOnTarget) +
        made.countP fun a => a.2.straysTo signature := by
  induction h with
  | nil => rfl
  | @cons t a s _ _ rest hattempt _ ih =>
    have hcons : ((t, a) :: rest).filterMap (fun a => a.2.example?) =
        a.example?.toList ++ rest.filterMap fun a => a.2.example? := by
      cases a <;> rfl
    rw [hcons, countOf_of_attempt (s := s) (by rw [hattempt]), ih, List.countP_cons,
      List.countP_cons]
    exact Nat.add_add_add_comm ..

/-! ### The accounts of a run -/

namespace Logs

variable {targets : List Target} {run : (List Example × List RouteReport) × σ}
  {logs : List RouteLog}

/-- The pool holds the examples that the accounts count. -/
theorem length_pool (h : p.Logs targets s run logs) :
    run.1.1.length = (run.1.2.map fun r => r.hits + r.offTarget).sum := by
  have haccepted {r : RouteReport} {log : RouteLog} (htells : r.Tells log) :
      r.hits + r.offTarget = log.outcomes.countP fun a => a.example?.isSome := by
    rw [Attempt.countP_isSome_example?, htells.hits, htells.offTarget]
  rw [h.pool, List.length_filterMap_eq_countP,
    RouteLog.countP_attempts logs fun a => a.2.example?.isSome,
    RouteReport.map_eq_of_tells h.reports haccepted]

/-- The examples of a signature are its hits, and what strayed to it. -/
theorem countOf_pool (h : p.Logs targets s run logs) (signature : String) :
    countOf signature run.1.1 = hitsOf signature run.1.2 +
      (RouteLog.attempts logs).countP fun a => a.2.straysTo signature := by
  have hhits {r : RouteReport} {log : RouteLog} (htells : r.Tells log) :
      (if r.signature = signature then r.hits else 0) = log.outcomes.countP fun a =>
        decide (log.target.signature = signature) && a.isOnTarget := by
    rw [htells.signature, htells.hits]
    split
    · next heq => simp [heq]
    · next hne => simp [hne]
  rw [h.pool, h.makes.countOf_examples, RouteLog.countP_attempts logs fun a =>
    decide (a.1.signature = signature) && a.2.isOnTarget, hitsOf,
    RouteReport.map_eq_of_tells h.reports hhits]

end Logs

end Plan

/-- **Attempts are accounted for**, whatever the plan, the places and the source: no account exceeds
the budget of the targeted phase, and each counts its attempts as hits, as candidates off target or
as rejections. The pool holds as many examples as the accounts count, of each signature at least the
hits of its targets. The report of a run totals its successes and its attempts accordingly. -/
theorem accounts_generateRaw {σ : Type} [RandomSource σ] (plan : Plan) (indices : List Nat)
    (s : σ) :
    let run := (plan.generateRaw indices s).1
    (∀ r ∈ run.2, r.attempts ≤ plan.config.attemptsPerPath ∧
      r.attempts + r.enrichmentAttempts = r.hits + r.offTarget + r.rejections.total) ∧
    run.1.length = (run.2.map fun r => r.hits + r.offTarget).sum ∧
    (∀ signature, hitsOf signature run.2 ≤ Plan.countOf signature run.1) ∧
    ∀ selected, let report : RunReport := { plan.emptyReport with paths := run.2, selected }
      report.totalSuccesses = run.1.length ∧
      report.totalAttempts =
        report.totalSuccesses + (run.2.map fun r => r.rejections.total).sum := by
  obtain ⟨logs, hlogs, hbounds⟩ := plan.exists_logs_generateRaw indices s
  intro run
  have htells : ∀ r ∈ run.2, ∃ log ∈ logs, r.Tells log := fun r hr =>
    RouteReport.exists_tells_of_mem hlogs.reports hr
  have hattempts : ∀ r ∈ run.2,
      r.attempts + r.enrichmentAttempts = r.hits + r.offTarget + r.rejections.total := by
    intro r hr
    obtain ⟨log, -, htold⟩ := htells r hr
    exact htold.attempts_add_enrichmentAttempts
  refine ⟨fun r hr => ⟨?_, hattempts r hr⟩, hlogs.length_pool, ?_, ?_⟩
  · obtain ⟨log, hlog, htold⟩ := htells r hr
    rw [htold.attempts]
    exact (hbounds log hlog).1
  · intro signature
    rw [hlogs.countOf_pool]
    exact Nat.le_add_right _ _
  · intro selected report
    rw [report.totalAttempts_eq_sum, report.totalSuccesses_eq_sum, ← List.sum_map_add,
      List.map_congr_left hattempts]
    exact ⟨hlogs.length_pool.symm, rfl⟩

end ProcedureChart
