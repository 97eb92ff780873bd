import Mathlib.Data.List.Forall2
import ProcedureChart.Proofs.Phases

/-!
# Logs of raw generation

A run of raw generation is nothing but a sequence of attempts, each made with what the one before it
has left of the source. A log tells them apart by target and by phase. Every run has a log
(`exists_logs_generateRaw`): the pool holds the examples of the accepted attempts in order, the
account of each target counts the outcomes in its log, the targeted phase keeps to its budget, and
enrichment ends with enough examples of the target or with as many failures in a row as it takes.
-/

namespace ProcedureChart

/-! ### Outcomes and what counts them -/

/-- Whether an attempt is accepted on another route. -/
def Attempt.isOffTarget : Attempt → Bool
  | .offTarget _ => true
  | .onTarget _ | .rejected _ => false

/-- An account counts some outcomes by their kinds. -/
structure RouteReport.Counts (r : RouteReport) (outcomes : List Attempt) : Prop where
  hits : r.hits = outcomes.countP Attempt.isOnTarget
  offTarget : r.offTarget = outcomes.countP Attempt.isOffTarget
  rejections : ∀ reason, r.rejections.get reason = outcomes.count (.rejected reason)

/-- An outcome that is taken counts once, under its own kind, and no other count changes. So the
counts of a report can be read off its log. -/
theorem Progress.counts_take {prog : Progress} {outcomes : List Attempt}
    (h : prog.report.Counts outcomes) (a : Attempt) :
    (prog.take a).report.Counts (outcomes ++ [a]) where
  hits := by
    rw [List.countP_append, ← h.hits]
    cases a <;> rfl
  offTarget := by
    rw [List.countP_append, ← h.offTarget]
    cases a <;> rfl
  rejections := by
    intro reason
    rw [List.count_append, ← h.rejections]
    cases a with
    | onTarget e => rfl
    | offTarget e => rfl
    | rejected other =>
      rw [take, RejectionCounts.get_record, List.count_singleton]
      by_cases hsame : reason = other
      · rw [hsame, if_pos rfl, if_pos (beq_self_eq_true _)]
      · rw [if_neg hsame, if_neg (by simp [Ne.symm hsame])]

/-- What came of the attempts at a target, in either phase. -/
structure RouteLog where
  target : Target
  targeted : List Attempt := []
  enriched : List Attempt := []

namespace RouteLog

/-- All outcomes of a log. -/
def outcomes (log : RouteLog) : List Attempt := log.targeted ++ log.enriched

/-- The attempts of the targeted phase. -/
def targetedAttempts (log : RouteLog) : List (Target × Attempt) :=
  log.targeted.map fun a => (log.target, a)

/-- The attempts of enrichment. -/
def enrichedAttempts (log : RouteLog) : List (Target × Attempt) :=
  log.enriched.map fun a => (log.target, a)

/-- The attempts of some logs in order: those of the targeted phase, target by target, and then
those of enrichment. -/
def attempts (logs : List RouteLog) : List (Target × Attempt) :=
  logs.flatMap targetedAttempts ++ logs.flatMap enrichedAttempts

/-- An outcome in a log is one of the attempts of all logs, in the phase that it belongs to. -/
theorem mem_attempts {logs : List RouteLog} {log : RouteLog} (hlog : log ∈ logs) {a : Attempt}
    (ha : a ∈ log.outcomes) : (log.target, a) ∈ attempts logs := by
  rw [attempts, List.mem_append, List.mem_flatMap, List.mem_flatMap]
  rcases List.mem_append.1 ha with ha | ha
  · exact .inl ⟨log, hlog, List.mem_map_of_mem ha⟩
  · exact .inr ⟨log, hlog, List.mem_map_of_mem ha⟩

end RouteLog

/-- An account tells what the log of its target says. -/
structure RouteReport.Tells (r : RouteReport) (log : RouteLog) : Prop
    extends r.Counts log.outcomes where
  signature : r.signature = log.target.signature
  label : r.label = log.target.route.descriptor
  attempts : r.attempts = log.targeted.length
  enrichmentAttempts : r.enrichmentAttempts = log.enriched.length

/-- Every outcome in the log of a target is an attempt of the one phase or the other. -/
theorem RouteReport.Tells.length_outcomes {r : RouteReport} {log : RouteLog} (h : r.Tells log) :
    log.outcomes.length = r.attempts + r.enrichmentAttempts := by
  rw [h.attempts, h.enrichmentAttempts, RouteLog.outcomes, List.length_append]

/-- What can be read off an account and off its log is the same for all of them. -/
theorem RouteReport.map_eq_of_tells {reports : List RouteReport} {logs : List RouteLog}
    (h : List.Forall₂ RouteReport.Tells reports logs) {α : Type} {f : RouteReport → α}
    {g : RouteLog → α} (hsame : ∀ {r log}, RouteReport.Tells r log → f r = g log) :
    reports.map f = logs.map g := by
  induction h with
  | nil => rfl
  | cons htells _ ih => rw [List.map_cons, List.map_cons, hsame htells, ih]

/-- Every account tells what some log says. -/
theorem RouteReport.exists_tells_of_mem {reports : List RouteReport} {logs : List RouteLog}
    (h : List.Forall₂ RouteReport.Tells reports logs) {r : RouteReport} (hr : r ∈ reports) :
    ∃ log ∈ logs, r.Tells log := by
  obtain ⟨i, hi, rfl⟩ := List.getElem_of_mem hr
  obtain ⟨hlength, htells⟩ := List.forall₂_iff_get.1 h
  exact ⟨logs[i], List.getElem_mem _, htells i hi (hlength ▸ hi)⟩

namespace Progress

variable {prog : Progress} {log : RouteLog}

/-- An attempt of the targeted phase is put at the end of its log. Nothing has been enriched yet, so
its outcome is the last of all outcomes. -/
theorem tells_countAttempt (h : prog.report.Tells log) (hlog : log.enriched = []) (a : Attempt) :
    (prog.countAttempt.take a).report.Tells { log with targeted := log.targeted ++ [a] } where
  toCounts := by
    have hcounts : prog.countAttempt.report.Counts log.outcomes :=
      ⟨h.hits, h.offTarget, h.rejections⟩
    have htaken := counts_take hcounts a
    rw [RouteLog.outcomes, hlog, List.append_nil] at htaken ⊢
    exact htaken
  signature := by rw [signature_take]; exact h.signature
  label := by rw [label_take]; exact h.label
  attempts := by rw [attempts_take, List.length_append, ← h.attempts]; rfl
  enrichmentAttempts := by rw [enrichmentAttempts_take]; exact h.enrichmentAttempts

/-- An attempt of enrichment is put at the end of its log. -/
theorem tells_countEnrichment (h : prog.report.Tells log) (a : Attempt) :
    (prog.countEnrichment.take a).report.Tells { log with enriched := log.enriched ++ [a] } where
  toCounts := by
    have hcounts : prog.countEnrichment.report.Counts log.outcomes :=
      ⟨h.hits, h.offTarget, h.rejections⟩
    have htaken := counts_take hcounts a
    rw [RouteLog.outcomes, List.append_assoc] at htaken
    exact htaken
  signature := by rw [signature_take]; exact h.signature
  label := by rw [label_take]; exact h.label
  attempts := by rw [attempts_take]; exact h.attempts
  enrichmentAttempts := by
    rw [enrichmentAttempts_take, List.length_append, ← h.enrichmentAttempts]; rfl

end Progress

namespace Plan

variable {σ : Type} [RandomSource σ] {p : Plan} {t : Target} {prog : Progress} {failures : Nat}
  {s s' s'' : σ} {log : RouteLog}

/-! ### Attempts in a row -/

/-- Attempts at some targets are made one after the other, from one state of the source to
another. -/
inductive Makes (p : Plan) : List (Target × Attempt) → σ → σ → Prop
  | nil (s : σ) : Makes p [] s s
  | cons {t : Target} {a : Attempt} {s s' s'' : σ} {rest : List (Target × Attempt)}
      (hattempt : p.attempt t s = (a, s')) (hrest : Makes p rest s' s'') :
      Makes p ((t, a) :: rest) s s''

/-- Attempts that begin where others end are made in a row with them. -/
theorem Makes.append {made made' : List (Target × Attempt)} (h : p.Makes made s s')
    (h' : p.Makes made' s' s'') : p.Makes (made ++ made') s s'' := by
  induction h with
  | nil => exact h'
  | cons hattempt _ ih => exact .cons hattempt (ih h')

/-- Each of them is an attempt with some state of the source. -/
theorem Makes.exists_attempt {made : List (Target × Attempt)} (h : p.Makes made s s')
    {a : Attempt} (ha : (t, a) ∈ made) : ∃ s : σ, (p.attempt t s).1 = a := by
  induction h with
  | nil => cases ha
  | cons hattempt _ ih =>
    rcases List.mem_cons.1 ha with heq | ha
    · cases heq
      exact ⟨_, by rw [hattempt]⟩
    · exact ih ha

/-- Attempts that are made one after the other, and their examples are put into the pool. -/
structure Fills (p : Plan) (made : List (Target × Attempt)) (before after : List Example × σ) :
    Prop where
  makes : p.Makes made before.2 after.2
  pool : after.1.reverse = before.1.reverse ++ made.filterMap fun a => a.2.example?

namespace Fills

variable {before between after : List Example × σ} {made made' : List (Target × Attempt)}

theorem nil (p : Plan) (state : List Example × σ) : p.Fills [] state state :=
  ⟨.nil _, (List.append_nil _).symm⟩

/-- Attempts one after the other put their examples into the pool one after the other. The pool is
kept with its newest example in front, so this is said of the pool in reverse. -/
theorem append (h : p.Fills made before between) (h' : p.Fills made' between after) :
    p.Fills (made ++ made') before after where
  makes := h.makes.append h'.makes
  pool := by rw [h'.pool, h.pool, List.append_assoc, List.filterMap_append]

/-- One attempt puts its example into the pool, if it has one. -/
theorem take (p : Plan) (t : Target) (prog : Progress) (s : σ) :
    p.Fills [(t, (p.attempt t s).1)] (prog.pool, s)
      ((prog.take (p.attempt t s).1).pool, (p.attempt t s).2) where
  makes := .cons rfl (.nil _)
  pool := by
    rw [Progress.pool_take, List.reverse_append]
    cases (p.attempt t s).1 <;> rfl

/-- Nothing is taken from the pool. -/
theorem countOf_le (h : p.Fills made before after) (signature : String) :
    countOf signature before.1 ≤ countOf signature after.1 := by
  rw [countOf, countOf, ← List.countP_reverse, ← List.countP_reverse (l := after.1), h.pool,
    List.countP_append]
  exact Nat.le_add_right _ _

end Fills

/-! ### The log of a phase -/

/-- The targeted phase goes on with the log of its target, up to the budget. By induction on the
turns of the loop, each of which makes one attempt. -/
theorem exists_log_of_ends_target {before after : Progress × σ}
    (hends : Loop.Ends (p.targetTurn t) before after) (h : before.1.report.Tells log)
    (hlog : log.enriched = []) (hbudget : log.targeted.length ≤ p.config.attemptsPerPath) :
    ∃ made, (log.targeted ++ made).length ≤ p.config.attemptsPerPath ∧
      p.Fills (made.map fun a => (t, a)) (before.1.pool, before.2) (after.1.pool, after.2) ∧
      after.1.report.Tells { log with targeted := log.targeted ++ made } := by
  induction hends using Loop.Ends.induct generalizing log with
  | @here state hturn =>
    obtain rfl := targetTurn_eq_inl hturn
    rw [← List.append_nil log.targeted] at hbudget
    exact ⟨[], hbudget, .nil p _, (List.append_nil log.targeted).symm ▸ h⟩
  | @after state next hturn _ ih =>
    obtain ⟨prog, s⟩ := state
    obtain ⟨hless, rfl⟩ := targetTurn_eq_inr hturn
    obtain ⟨made, hlength, hfills, htells⟩ :=
      ih (Progress.tells_countAttempt h hlog (p.attempt t s).1) hlog
        (by rw [h.attempts] at hless; simpa [Nat.succ_le_iff] using hless)
    simp only [List.append_assoc, List.singleton_append] at hlength htells
    exact ⟨_ :: made, hlength, (Fills.take p t prog.countAttempt s).append hfills, htells⟩

/-- The last so many attempts of some are not on target. -/
def EndsInFailures (failures : Nat) (outcomes : List Attempt) : Prop :=
  ∃ last, last <:+ outcomes ∧ last.length = failures ∧ ∀ a ∈ last, a.isOnTarget = false

theorem endsInFailures_zero (outcomes : List Attempt) : EndsInFailures 0 outcomes :=
  ⟨[], List.nil_suffix, rfl, by simp⟩

/-- One more failure makes the row of failures at the end longer by one. -/
theorem EndsInFailures.append {outcomes : List Attempt} {a : Attempt}
    (h : EndsInFailures failures outcomes) (ha : a.isOnTarget = false) :
    EndsInFailures (failures + 1) (outcomes ++ [a]) := by
  obtain ⟨last, hsuffix, hlength, hfailed⟩ := h
  refine ⟨last ++ [a], ?_, by simp [hlength], ?_⟩
  · obtain ⟨earlier, rfl⟩ := hsuffix
    exact ⟨earlier, (List.append_assoc ..).symm⟩
  · intro b hb
    rcases List.mem_append.1 hb with hb | hb
    · exact hfailed b hb
    · rw [List.mem_singleton.1 hb]
      exact ha

/-- A row of failures at the end has shorter ones at its own end. -/
theorem EndsInFailures.mono {outcomes : List Attempt} {fewer : Nat}
    (h : EndsInFailures failures outcomes) (hle : fewer ≤ failures) :
    EndsInFailures fewer outcomes := by
  obtain ⟨last, hsuffix, hlength, hfailed⟩ := h
  refine ⟨last.drop (failures - fewer), (List.drop_suffix _ _).trans hsuffix, ?_, ?_⟩
  · rw [List.length_drop]
    omega
  · intro a ha
    exact hfailed a (List.mem_of_mem_drop ha)

/-- How many attempts enrichment may still take behind some failures in a row: as many as it gives
up after, for each example that is missing. -/
def room (p : Plan) (count failures : Nat) : Nat :=
  (p.config.enrichmentTarget - count) * p.config.maxConsecutiveFailures - failures

/-- A hit takes the pool one example nearer to what enrichment aims at. The count of failures begins
anew, and still there is less room for attempts than before. -/
theorem room_of_hit {count : Nat} (hcount : count < p.config.enrichmentTarget)
    (hfailures : failures < p.config.maxConsecutiveFailures) :
    p.room (count + 1) 0 + 1 ≤ p.room count failures := by
  have hmissing : p.config.enrichmentTarget - count =
      (p.config.enrichmentTarget - (count + 1)) + 1 := by omega
  simp only [room, hmissing, Nat.succ_mul]
  omega

/-- A failure takes enrichment one attempt nearer to giving up, and a stray example of the target's
signature does no harm. -/
theorem room_of_failure {count count' : Nat} (hcount : count < p.config.enrichmentTarget)
    (hfailures : failures < p.config.maxConsecutiveFailures) (hle : count ≤ count') :
    p.room count' (failures + 1) + 1 ≤ p.room count failures := by
  have hless : (p.config.enrichmentTarget - count') * p.config.maxConsecutiveFailures ≤
      (p.config.enrichmentTarget - count) * p.config.maxConsecutiveFailures :=
    Nat.mul_le_mul_right _ (by omega)
  have hmissing : p.config.maxConsecutiveFailures ≤
      (p.config.enrichmentTarget - count) * p.config.maxConsecutiveFailures :=
    Nat.le_mul_of_pos_left _ (by omega)
  simp only [room]
  omega

/-- An attempt of enrichment takes some of the room that there is. -/
theorem room_attempt (hcount : countOf t.signature prog.pool < p.config.enrichmentTarget)
    (hfailures : failures < p.config.maxConsecutiveFailures) :
    p.room (countOf t.signature (prog.countEnrichment.take (p.attempt t s).1).pool)
        (if (p.attempt t s).1.isOnTarget then 0 else failures + 1) + 1 ≤
      p.room (countOf t.signature prog.pool) failures := by
  have hkeeps := (Fills.take p t prog.countEnrichment s).countOf_le t.signature
  cases hattempt : (p.attempt t s).1 with
  | onTarget e =>
    rw [countOf_take_of_attempt hattempt]
    exact room_of_hit hcount hfailures
  | offTarget e => exact room_of_failure hcount hfailures (hattempt ▸ hkeeps)
  | rejected reason => exact room_of_failure hcount hfailures (hattempt ▸ hkeeps)

/-- Enrichment goes on with the log of its target, as far as there is room, until the pool has
enough examples of the target or the log ends in too many failures. -/
theorem exists_log_of_ends_enrich {before : Progress × Nat × σ} {after : Progress × σ}
    (hends : Loop.Ends (p.enrichTurn t) before after) (h : before.1.report.Tells log)
    (hfailed : EndsInFailures before.2.1 log.enriched) :
    ∃ made, made.length ≤ p.room (countOf t.signature before.1.pool) before.2.1 ∧
      (p.config.enrichmentTarget ≤ countOf t.signature after.1.pool ∨
        EndsInFailures p.config.maxConsecutiveFailures (log.enriched ++ made)) ∧
      p.Fills (made.map fun a => (t, a)) (before.1.pool, before.2.2) (after.1.pool, after.2) ∧
      after.1.report.Tells { log with enriched := log.enriched ++ made } := by
  induction hends using Loop.Ends.induct generalizing log with
  | @here state hturn =>
    obtain ⟨rfl, hdone⟩ := enrichTurn_eq_inl hturn
    refine ⟨[], Nat.zero_le _, ?_, .nil p _, (List.append_nil log.enriched).symm ▸ h⟩
    rw [List.append_nil]
    exact hdone.imp_right hfailed.mono
  | @after state next hturn _ ih =>
    obtain ⟨prog, failures, s⟩ := state
    obtain ⟨hcount, hfailures, rfl⟩ := enrichTurn_eq_inr hturn
    have hfailed' : EndsInFailures (if (p.attempt t s).1.isOnTarget then 0 else failures + 1)
        (log.enriched ++ [(p.attempt t s).1]) := by
      split
      · exact endsInFailures_zero _
      · next hfails => exact hfailed.append (by simpa using hfails)
    obtain ⟨made, hlength, hdone, hfills, htells⟩ :=
      ih (Progress.tells_countEnrichment h (p.attempt t s).1) hfailed'
    simp only [List.append_assoc, List.singleton_append] at hdone htells
    refine ⟨_ :: made, ?_, hdone, (Fills.take p t prog.countEnrichment s).append hfills, htells⟩
    exact Nat.le_trans (Nat.succ_le_succ hlength) (room_attempt hcount hfailures)

/-! ### The log of a run -/

/-- Enrichment of a target has kept to its bound, and has filled the pool up or failed often enough
in a row. -/
structure Finishes (p : Plan) (pool : List Example) (log : RouteLog) : Prop where
  length_le :
    log.enriched.length ≤ p.config.enrichmentTarget * p.config.maxConsecutiveFailures
  done : p.config.enrichmentTarget ≤ countOf log.target.signature pool ∨
    EndsInFailures p.config.maxConsecutiveFailures log.enriched

/-- The logs of a raw run over some targets: the attempts are made in order, the pool holds the
examples of those that are accepted, and each account tells what its log says. -/
structure Logs (p : Plan) (targets : List Target) (s : σ)
    (run : (List Example × List RouteReport) × σ) (logs : List RouteLog) : Prop where
  targets : logs.map RouteLog.target = targets
  makes : p.Makes (RouteLog.attempts logs) s run.2
  pool : run.1.1 = (RouteLog.attempts logs).filterMap fun a => a.2.example?
  reports : List.Forall₂ RouteReport.Tells run.1.2 logs

namespace Logs

variable {targets : List Target} {run : (List Example × List RouteReport) × σ}
  {logs : List RouteLog} {a : Attempt}

/-- What a log says came of attempts at its target. -/
theorem exists_attempt (h : p.Logs targets s run logs) (hlog : log ∈ logs)
    (ha : a ∈ log.outcomes) : ∃ s : σ, (p.attempt log.target s).1 = a :=
  h.makes.exists_attempt (RouteLog.mem_attempts hlog ha)

/-- The pool keeps the example of each of them. -/
theorem mem_pool (h : p.Logs targets s run logs) (hlog : log ∈ logs) (ha : a ∈ log.outcomes)
    {e : Example} (he : a.example? = some e) : e ∈ run.1.1 := by
  rw [h.pool]
  exact List.mem_filterMap.2 ⟨_, RouteLog.mem_attempts hlog ha, he⟩

end Logs

/-- The targeted phase has logs: one for each target in order, with no more attempts in it than the
budget allows, and the source handed from each attempt to the next. -/
theorem exists_logs_targetAll (targets : List Target) (pool : List Example) (s : σ) :
    ∃ logs : List RouteLog, logs.map RouteLog.target = targets ∧
      (∀ log ∈ logs, log.enriched = [] ∧ log.targeted.length ≤ p.config.attemptsPerPath) ∧
      let after := p.targetAll targets pool s
      p.Fills (logs.flatMap RouteLog.targetedAttempts) (pool, s) (after.1.2, after.2) ∧
        List.Forall₂ RouteReport.Tells after.1.1 logs := by
  induction targets generalizing pool s with
  | nil => exact ⟨[], rfl, by simp, .nil p _, .nil⟩
  | cons t rest ih =>
    have hfresh : (⟨pool, { signature := t.signature, label := t.route.descriptor }⟩ :
        Progress).report.Tells { target := t } :=
      ⟨⟨rfl, rfl, fun reason => by cases reason <;> rfl⟩, rfl, rfl, rfl, rfl⟩
    obtain ⟨made, hbudget, hfills, htells⟩ :=
      exists_log_of_ends_target (p := p) (t := t) (ends_target (s := s) rfl) hfresh rfl
        (Nat.zero_le _)
    obtain ⟨logs, htargets, hlogs, hrest, hreports⟩ := ih _ _
    refine ⟨{ target := t, targeted := made } :: logs, congrArg _ htargets, ?_,
      hfills.append hrest, .cons htells hreports⟩
    exact List.forall_mem_cons.2 ⟨⟨rfl, hbudget⟩, hlogs⟩

/-- Enrichment goes on with the logs of the targeted phase. Each target gets its further attempts,
within the bounds of enrichment, and what was logged before stays as it is. -/
theorem exists_logs_enrichAll {reports : List RouteReport} {logs : List RouteLog}
    (h : List.Forall₂ RouteReport.Tells reports logs)
    (hlogs : ∀ log ∈ logs, log.enriched = []) (pool : List Example) (s : σ) :
    ∃ logs' : List RouteLog, logs'.map (fun log => { log with enriched := [] }) = logs ∧
      let after := p.enrichAll ((logs.map RouteLog.target).zip reports) pool s
      (∀ log ∈ logs', p.Finishes after.1.2 log) ∧
        p.Fills (logs'.flatMap RouteLog.enrichedAttempts) (pool, s) (after.1.2, after.2) ∧
        List.Forall₂ RouteReport.Tells after.1.1 logs' := by
  induction h generalizing pool s with
  | nil => exact ⟨[], rfl, by simp, .nil p _, .nil⟩
  | @cons report log reports logs htells _ ih =>
    obtain ⟨hlog, hlogs⟩ := List.forall_mem_cons.1 hlogs
    have hends : Loop.Ends (p.enrichTurn log.target) (⟨pool, report⟩, 0, s)
        (p.enrich log.target (countOf log.target.signature pool) 0 ⟨pool, report⟩ s) :=
      ends_enrich rfl
    obtain ⟨made, hlength, hdone, hfills, htold⟩ :=
      exists_log_of_ends_enrich hends htells (endsInFailures_zero _)
    obtain ⟨logs', hsame, hfinished, hrest, hreports⟩ := ih hlogs _ _
    rw [hlog, List.nil_append] at hdone htold
    refine ⟨{ log with enriched := made } :: logs', ?_, ?_, hfills.append hrest,
      .cons htold hreports⟩
    · rw [List.map_cons, hsame, ← hlog]
    · refine List.forall_mem_cons.2 ⟨⟨Nat.le_trans hlength ?_, ?_⟩, hfinished⟩
      · exact Nat.le_trans (Nat.sub_le _ _) (Nat.mul_le_mul_right _ (Nat.sub_le _ _))
      · exact hdone.imp_left fun hfilled => Nat.le_trans hfilled (hrest.countOf_le _)

/-- **Every raw run has a log**, which keeps to the bounds of both phases. What is told by counts
and by the pool can be read off the log instead, attempt by attempt, and attempts are the only thing
in a run that depends on the source. -/
theorem exists_logs_generateRaw (p : Plan) (indices : List Nat) (s : σ) :
    ∃ logs, p.Logs (indices.filterMap fun i => p.targets[i]?) s (p.generateRaw indices s) logs ∧
      ∀ log ∈ logs, log.targeted.length ≤ p.config.attemptsPerPath ∧
        p.Finishes (p.generateRaw indices s).1.1 log := by
  obtain ⟨begun, htargets, hbegun, hfills, hreports⟩ :=
    exists_logs_targetAll (p := p) (indices.filterMap fun i => p.targets[i]?) [] s
  obtain ⟨logs, rfl, hfinishes, hrest, hreports'⟩ :=
    exists_logs_enrichAll (p := p) hreports (fun log hlog => (hbegun log hlog).1)
      (p.targetAll (indices.filterMap fun i => p.targets[i]?) [] s).1.2
      (p.targetAll (indices.filterMap fun i => p.targets[i]?) [] s).2
  rw [List.flatMap_map] at hfills
  rw [htargets] at hfinishes hrest hreports'
  rw [List.map_map] at htargets
  have hall := hfills.append hrest
  refine ⟨logs, ⟨htargets, hall.makes, hall.pool, hreports'⟩, ?_⟩
  intro log hlog
  have hfinish := hfinishes log hlog
  refine ⟨(List.forall_mem_map.1 hbegun log hlog).2, hfinish.length_le, ?_⟩
  refine hfinish.done.imp_left fun hfilled => Nat.le_trans hfilled (Nat.le_of_eq ?_)
  exact (List.countP_reverse ..).symm

end Plan

end ProcedureChart
