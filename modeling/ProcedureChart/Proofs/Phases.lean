import ProcedureChart.Proofs.Loop
import ProcedureChart.Proofs.Signatures

/-!
# The phases of raw generation as loops

Each phase attempts a target in turns, as long as its condition holds. The targeted phase counts
attempts and hits; enrichment looks at the examples of the target in the pool and at the failures
since the last hit. Nothing else bounds the number of turns, and the conditions ask nothing of what
is drawn. Both loops end, with what the two recursions return (`ends_target`, `ends_enrich`): an
attempt of enrichment either is on target, and then its example is one of the target, or brings the
last failure nearer.
-/

namespace ProcedureChart

/-- Whether an attempt is on target. -/
def Attempt.isOnTarget : Attempt → Bool
  | .onTarget _ => true
  | .offTarget _ | .rejected _ => false

namespace Progress

variable {prog : Progress} (a : Attempt)

@[simp] theorem signature_take : (prog.take a).report.signature = prog.report.signature := by
  cases a <;> rfl

@[simp] theorem label_take : (prog.take a).report.label = prog.report.label := by
  cases a <;> rfl

@[simp] theorem attempts_take : (prog.take a).report.attempts = prog.report.attempts := by
  cases a <;> rfl

@[simp] theorem enrichmentAttempts_take :
    (prog.take a).report.enrichmentAttempts = prog.report.enrichmentAttempts := by
  cases a <;> rfl

end Progress

namespace Plan

variable {σ : Type} [RandomSource σ] {p : Plan} {t : Target} {prog : Progress} {failures : Nat}
  {s : σ}

/-- An example on target has the signature of the target. -/
theorem signature_of_attempt {e : Example} (h : (p.attempt t s).1 = .onTarget e) :
    e.signature = t.signature := by
  obtain ⟨hlabel, -⟩ := replays_of_hits (hits_of_attempt h)
  rw [hlabel, t.signature_eq]
  rfl

/-! ### Turns -/

/-- One turn of the targeted phase: an attempt, as long as there are attempts and hits to come. -/
def targetTurn (p : Plan) (t : Target) : Progress × σ → (Progress × σ) ⊕ (Progress × σ)
  | (prog, s) =>
    if prog.report.attempts < p.config.attemptsPerPath ∧
        prog.report.hits < p.config.targetHitsPerPath then
      .inr (prog.countAttempt.take (p.attempt t s).1, (p.attempt t s).2)
    else .inl (prog, s)

/-- One turn of enrichment: an attempt, as long as the pool has too few examples of the target and
there are not too many failures in a row. -/
def enrichTurn (p : Plan) (t : Target) :
    Progress × Nat × σ → (Progress × σ) ⊕ (Progress × Nat × σ)
  | (prog, failures, s) =>
    if countOf t.signature prog.pool < p.config.enrichmentTarget ∧
        failures < p.config.maxConsecutiveFailures then
      let outcome := (p.attempt t s).1
      .inr (prog.countEnrichment.take outcome, if outcome.isOnTarget then 0 else failures + 1,
        (p.attempt t s).2)
    else .inl (prog, s)

theorem targetTurn_eq_inl {result : Progress × σ} (h : p.targetTurn t (prog, s) = .inl result) :
    result = (prog, s) := by
  rw [targetTurn] at h
  split at h
  · cases h
  · exact (Sum.inl.inj h).symm

theorem targetTurn_eq_inr {next : Progress × σ} (h : p.targetTurn t (prog, s) = .inr next) :
    prog.report.attempts < p.config.attemptsPerPath ∧
      next = (prog.countAttempt.take (p.attempt t s).1, (p.attempt t s).2) := by
  rw [targetTurn] at h
  split at h
  · next hgoes => exact ⟨hgoes.1, (Sum.inr.inj h).symm⟩
  · cases h

theorem enrichTurn_eq_inl {result : Progress × σ}
    (h : p.enrichTurn t (prog, failures, s) = .inl result) :
    result = (prog, s) ∧
      (p.config.enrichmentTarget ≤ countOf t.signature prog.pool ∨
        p.config.maxConsecutiveFailures ≤ failures) := by
  rw [enrichTurn] at h
  split at h
  · cases h
  · next hends => exact ⟨(Sum.inl.inj h).symm, by omega⟩

theorem enrichTurn_eq_inr {next : Progress × Nat × σ}
    (h : p.enrichTurn t (prog, failures, s) = .inr next) :
    countOf t.signature prog.pool < p.config.enrichmentTarget ∧
      failures < p.config.maxConsecutiveFailures ∧
      next = (prog.countEnrichment.take (p.attempt t s).1,
        if (p.attempt t s).1.isOnTarget then 0 else failures + 1, (p.attempt t s).2) := by
  rw [enrichTurn] at h
  split at h
  · next hgoes => exact ⟨hgoes.1, hgoes.2, (Sum.inr.inj h).symm⟩
  · cases h

/-! ### Ends -/

/-- **The targeted phase ends** like its loop. The bound that the phase recurses on is how many
attempts are left in the budget, and each turn makes one of them, so the bound runs out no earlier
than the loop ends. -/
theorem ends_target {left : Nat} (h : left = p.config.attemptsPerPath - prog.report.attempts) :
    Loop.Ends (p.targetTurn t) (prog, s) (p.target t left prog s) := by
  induction left generalizing prog s with
  | zero =>
    apply Loop.Ends.here
    rw [targetTurn, if_neg (by omega)]
    rfl
  | succ left ih =>
    simp only [target]
    split
    · next hhits =>
      apply Loop.Ends.here
      rw [targetTurn, if_neg (by omega)]
    · next hhits =>
      refine .after (t := (prog.countAttempt.take (p.attempt t s).1, (p.attempt t s).2)) ?_ ?_
      · rw [targetTurn, if_pos (by omega)]
      · apply ih
        rw [Progress.attempts_take]
        change left = p.config.attemptsPerPath - (prog.report.attempts + 1)
        omega

theorem countOf_cons (signature : String) (e : Example) (pool : List Example) :
    countOf signature (e :: pool) =
      countOf signature pool + if e.signature = signature then 1 else 0 := by
  simp [countOf, List.countP_cons]

/-- A hit is one more example of the target. -/
theorem countOf_take_of_attempt {e : Example} (h : (p.attempt t s).1 = .onTarget e) :
    countOf t.signature (prog.take (.onTarget e)).pool = countOf t.signature prog.pool + 1 := by
  rw [Progress.take, countOf_cons, if_pos (signature_of_attempt h)]

theorem enrichTurn_of_attempt {a : Attempt} {s' : σ}
    (hgoes : countOf t.signature prog.pool < p.config.enrichmentTarget ∧
      failures < p.config.maxConsecutiveFailures) (hattempt : p.attempt t s = (a, s')) :
    p.enrichTurn t (prog, failures, s) =
      .inr (prog.countEnrichment.take a, if a.isOnTarget then 0 else failures + 1, s') := by
  rw [enrichTurn, if_pos hgoes, hattempt]

/-- **Enrichment ends** like its loop. An attempt on target makes an example more of the signature,
which is what the first measure counts down from; any other attempt makes one failure more in a row,
and it may put an example of the signature into the pool as well. -/
theorem ends_enrich {count : Nat} (h : count = countOf t.signature prog.pool) :
    Loop.Ends (p.enrichTurn t) (prog, failures, s) (p.enrich t count failures prog s) := by
  fun_induction enrich p t count failures prog s with
  | case1 count failures prog s hgoes s' e hattempt prog' ih =>
    refine .after (enrichTurn_of_attempt (h ▸ hgoes) hattempt) (ih ?_)
    rw [countOf_take_of_attempt (p := p) (s := s) (by rw [hattempt]), h]
    rfl
  | case2 count failures prog s hgoes s' e hsignature hattempt prog' ih =>
    refine .after (enrichTurn_of_attempt (h ▸ hgoes) hattempt) (ih ?_)
    change count + 1 = countOf t.signature (e :: prog.pool)
    rw [countOf_cons, if_pos hsignature, h]
  | case3 count failures prog s hgoes s' e hsignature hattempt prog' ih =>
    refine .after (enrichTurn_of_attempt (h ▸ hgoes) hattempt) (ih ?_)
    change count = countOf t.signature (e :: prog.pool)
    rw [countOf_cons, if_neg hsignature, h, Nat.add_zero]
  | case4 count failures prog s hgoes s' reason hattempt prog' ih =>
    exact .after (enrichTurn_of_attempt (h ▸ hgoes) hattempt) (ih h)
  | case5 count failures prog s hends =>
    apply Loop.Ends.here
    rw [enrichTurn, if_neg (h ▸ hends)]

end Plan

end ProcedureChart
