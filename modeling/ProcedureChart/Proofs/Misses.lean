import ProcedureChart.Proofs.Accounts

/-!
# What a reported miss means

A target is reported as missed if none of the attempts at it hit. The pool may have examples of it
all the same, which attempts at other targets strayed to; and where there are enough of them,
enrichment does not attempt the target again. So the targets of a signature have no examples exactly
if all of them are missed and no attempt of the run strayed to them (`exists_logs_missed_iff`), and
the report of misses alone does not show it (`not_missed_crossing`).
-/

namespace ProcedureChart

namespace RouteReport

/-- A target is missed where nothing hit. -/
theorem exists_outcome_eq_miss_iff {r : RouteReport} :
    (∃ reason, r.outcome = .miss reason) ↔ r.hits = 0 := by
  rw [outcome]
  constructor
  · rintro ⟨reason, h⟩
    split at h
    · cases h
    · next hnone => exact Nat.eq_zero_of_not_pos hnone
  · intro h
    exact ⟨r.missReason, if_neg (by omega)⟩

end RouteReport

/-- The accounts of a signature count no hits if each of them is a miss. -/
theorem hitsOf_eq_zero_iff {signature : String} {reports : List RouteReport} :
    hitsOf signature reports = 0 ↔
      ∀ r ∈ reports, r.signature = signature → ∃ reason, r.outcome = .miss reason := by
  simp only [hitsOf, List.sum_eq_zero_iff, List.forall_mem_map, ite_eq_right_iff,
    RouteReport.exists_outcome_eq_miss_iff]

namespace Plan

theorem countOf_eq_zero_iff {signature : String} {pool : List Example} :
    countOf signature pool = 0 ↔ ∀ e ∈ pool, e.signature ≠ signature := by
  simp only [countOf, List.countP_eq_zero, beq_iff_eq, ne_eq]

variable {σ : Type} [RandomSource σ] {p : Plan}

/-- Without examples of a signature there are neither hits of its targets nor attempts that strayed
to it. -/
theorem Logs.missed_iff {targets : List Target} {s : σ}
    {run : (List Example × List RouteReport) × σ} {logs : List RouteLog}
    (h : p.Logs targets s run logs) (signature : String) :
    (∀ e ∈ run.1.1, e.signature ≠ signature) ↔
      (∀ r ∈ run.1.2, r.signature = signature → ∃ reason, r.outcome = .miss reason) ∧
        ∀ a ∈ RouteLog.attempts logs, a.2.straysTo signature = false := by
  have hstray : (RouteLog.attempts logs).countP (fun a => a.2.straysTo signature) = 0 ↔
      ∀ a ∈ RouteLog.attempts logs, a.2.straysTo signature = false := by
    simp only [List.countP_eq_zero, Bool.not_eq_true]
  rw [← countOf_eq_zero_iff, h.countOf_pool, Nat.add_eq_zero_iff, hitsOf_eq_zero_iff, hstray]

/-- Where the targeted phase has filled the pool, it is all of the run: the enrichment makes no
attempt for a route whose target has been reached. -/
theorem generateRaw_of_filled {indices : List Nat} {s : σ}
    {after : (List RouteReport × List Example) × σ}
    (hafter : p.targetAll (indices.filterMap fun i => p.targets[i]?) [] s = after)
    (hfilled : ∀ t ∈ indices.filterMap fun i => p.targets[i]?,
      p.config.enrichmentTarget ≤ countOf t.signature after.1.2) :
    p.generateRaw indices s = ((after.1.2.reverse, after.1.1), after.2) := by
  obtain ⟨logs, htargets, -, -, hreports⟩ :=
    exists_logs_targetAll (p := p) (indices.filterMap fun i => p.targets[i]?) [] s
  rw [hafter] at hreports
  have hlength : after.1.1.length ≤ (indices.filterMap fun i => p.targets[i]?).length := by
    rw [← htargets, List.length_map]
    exact Nat.le_of_eq hreports.length_eq
  have hdone : p.enrichAll ((indices.filterMap fun i => p.targets[i]?).zip after.1.1) after.1.2
      after.2 = ((after.1.1, after.1.2), after.2) := by
    rw [enrichAll_of_filled fun entry hentry => hfilled _ (List.of_mem_zip hentry).1,
      List.map_snd_zip hlength]
  simp only [generateRaw, hafter, hdone]

end Plan

/-- **Why a signature has no examples**: a raw run, whatever the plan, the places and the source,
has no example of a signature if and only if all its accounts of this signature are misses and none
of its attempts strayed to it. -/
theorem exists_logs_missed_iff {σ : Type} [RandomSource σ] (plan : Plan) (indices : List Nat)
    (s : σ) :
    let run := plan.generateRaw indices s
    ∃ logs, plan.Logs (indices.filterMap fun i => plan.targets[i]?) s run logs ∧
      ∀ signature, (∀ e ∈ run.1.1, e.signature ≠ signature) ↔
        (∀ r ∈ run.1.2, r.signature = signature → ∃ reason, r.outcome = .miss reason) ∧
          ∀ a ∈ RouteLog.attempts logs, a.2.straysTo signature = false := by
  obtain ⟨logs, hlogs, -⟩ := plan.exists_logs_generateRaw indices s
  exact ⟨logs, hlogs, hlogs.missed_iff⟩

/-- A chart that tells large numbers from small ones, by a condition that filters nothing. -/
def crossingChart : Chart where
  definition := {
    id := "size"
    title := "The size of a number"
    problemInput := { schema := "size", fields := [{ name := "n" }] }
    entryNode := "size"
    nodes := .ofList [
      ("size", .decision {
        options := [
          { label := "Large", value := "large", next := some "large" },
          { label := "Small", value := "small", next := some "small" }]
        correctAnswer := some ⟨.boolean, .ofSource "n > 2 + 2"⟩ }),
      ("large", .terminal {}),
      ("small", .terminal {})]
    generation := some { preferred := .ofList [("n", [.number 9, .number 3])] } }
  diagram := {}
  entry_defined := by simp [Table.ofList, Table.contains, Table.get?_insert]

/-- One attempt at each route, and enrichment that is content with one example. -/
def onceAndOne : Config := { attemptsPerPath := 1, enrichmentTarget := 1 }

/-- **Missed routes may have examples.** The attempt at the route of large numbers draws a small
one, the attempt at the route of small numbers a large one. Both routes are reported as missed, and
there is an example of each. -/
theorem not_missed_crossing :
    ∃ run, run = ((Plan.make crossingChart onceAndOne {}).generateRaw
        (List.range (Plan.make crossingChart onceAndOne {}).targets.length)
        (Mulberry32.ofSeed 42)).1 ∧
      run.2.map RouteReport.signature = ["size→large", "size→small"] ∧
      ∀ r ∈ run.2, (∃ reason, r.outcome = .miss reason) ∧ ∃ e ∈ run.1, e.signature = r.signature := by
  refine ⟨_, rfl, ?_⟩
  rw [Plan.generateRaw_of_filled rfl (by decide +kernel)]
  simp only [RouteReport.exists_outcome_eq_miss_iff]
  decide +kernel

end ProcedureChart
