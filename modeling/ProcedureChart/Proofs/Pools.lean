import ProcedureChart.Generate.Run
import ProcedureChart.Proofs.Selection
import ProcedureChart.Proofs.Targets

/-!
# Where the examples of a run come from

Whatever the source of randomness, an attempt at a target ends in judging one candidate, and the
pools of a run hold nothing but examples that such judgements accepted
(`yields_of_mem_generateRaw`). Selection, slicing and merging add no examples. A property of all
accepted candidates is therefore a property of all examples that are handed out.
-/

namespace ProcedureChart

/-- The example of an attempt, if it was accepted. -/
def Attempt.example? : Attempt → Option Example
  | .onTarget e | .offTarget e => some e
  | .rejected _ => none

namespace Progress

@[simp] theorem pool_countAttempt (p : Progress) : p.countAttempt.pool = p.pool := rfl

/-- Counting an attempt puts its example in front of the pool. -/
theorem pool_take (p : Progress) (a : Attempt) :
    (p.take a).pool = a.example?.toList ++ p.pool := by
  cases a <;> rfl

end Progress

namespace Plan

/-- Some candidate for a target is accepted, and this is its example. -/
def Yields (p : Plan) (t : Target) (e : Example) : Prop :=
  ∃ drawn, (p.judge t drawn).example? = some e

/-- Some candidate for a target is accepted on target, and this is its example. -/
def Hits (p : Plan) (t : Target) (e : Example) : Prop := ∃ drawn, p.judge t drawn = .onTarget e

variable {σ : Type} [RandomSource σ] {p : Plan} {t : Target} {e : Example}

theorem yields_of_hits (h : p.Hits t e) : p.Yields t e := by
  obtain ⟨drawn, hdrawn⟩ := h
  exact ⟨drawn, by rw [hdrawn]; rfl⟩

/-- An attempt that is on target hits. -/
theorem hits_of_attempt {s : σ} (h : (p.attempt t s).1 = .onTarget e) : p.Hits t e := by
  rw [attempt] at h
  split at h
  · cases h
  · next drawn _ _ => exact ⟨drawn, h⟩

/-- What an attempt accepts is the example of some candidate. -/
theorem yields_of_attempt {s : σ} (h : (p.attempt t s).1.example? = some e) : p.Yields t e := by
  rw [attempt] at h
  split at h
  · cases h
  · next drawn _ _ => exact ⟨drawn, h⟩

/-- What stands in the pool behind an attempt stood there before or is the example of it. -/
theorem yields_of_mem_take {s s' : σ} {a : Attempt} {prog : Progress}
    (hattempt : p.attempt t s = (a, s')) (h : e ∈ (prog.take a).pool) :
    e ∈ prog.pool ∨ p.Yields t e := by
  rw [Progress.pool_take, List.mem_append, Option.mem_toList] at h
  rcases h with h | h
  · refine .inr (yields_of_attempt (s := s) ?_)
    rw [hattempt]
    exact h
  · exact .inl h

/-! ### The two phases -/

theorem yields_of_mem_target {left : Nat} {prog : Progress} {s : σ}
    (h : e ∈ (p.target t left prog s).1.pool) : e ∈ prog.pool ∨ p.Yields t e := by
  induction left generalizing prog s with
  | zero => exact .inl h
  | succ left ih =>
    simp only [target] at h
    split at h
    · exact .inl h
    · rcases ih h with h | h
      · have hmem : e ∈ prog.countAttempt.pool ∨ p.Yields t e := yields_of_mem_take rfl h
        rwa [Progress.pool_countAttempt] at hmem
      · exact .inr h

theorem yields_of_mem_enrich {count failures : Nat} {prog : Progress} {s : σ}
    (h : e ∈ (p.enrich t count failures prog s).1.pool) : e ∈ prog.pool ∨ p.Yields t e := by
  fun_induction enrich p t count failures prog s with
  | case1 _ _ _ _ _ _ _ hattempt _ ih | case2 _ _ _ _ _ _ _ _ hattempt _ ih
  | case3 _ _ _ _ _ _ _ _ hattempt _ ih | case4 _ _ _ _ _ _ _ hattempt _ ih =>
    rcases ih h with h | h
    · exact yields_of_mem_take hattempt h
    · exact .inr h
  | case5 => exact .inl h

theorem yields_of_mem_targetAll {targets : List Target} {pool : List Example} {s : σ}
    (h : e ∈ (p.targetAll targets pool s).1.2) : e ∈ pool ∨ ∃ t ∈ targets, p.Yields t e := by
  induction targets generalizing pool s with
  | nil => exact .inl h
  | cons t rest ih =>
    simp only [targetAll] at h
    rcases ih h with h | ⟨t', ht', h⟩
    · rcases yields_of_mem_target h with h | h
      · exact .inl h
      · exact .inr ⟨t, List.mem_cons_self, h⟩
    · exact .inr ⟨t', List.mem_cons_of_mem _ ht', h⟩

theorem yields_of_mem_enrichAll {entries : List (Target × RouteReport)} {pool : List Example}
    {s : σ} (h : e ∈ (p.enrichAll entries pool s).1.2) :
    e ∈ pool ∨ ∃ t ∈ entries.map Prod.fst, p.Yields t e := by
  induction entries generalizing pool s with
  | nil => exact .inl h
  | cons entry rest ih =>
    obtain ⟨t, report⟩ := entry
    simp only [enrichAll] at h
    rcases ih h with h | ⟨t', ht', h⟩
    · rcases yields_of_mem_enrich h with h | h
      · exact .inl h
      · exact .inr ⟨t, List.mem_cons_self, h⟩
    · exact .inr ⟨t', List.mem_cons_of_mem _ ht', h⟩

/-- **The source of a pool**: whatever is drawn, each example of a raw pool is what a candidate for
some target was accepted as. The target need not be one whose route the example takes, since
accepted candidates on other routes are kept. -/
theorem yields_of_mem_generateRaw {indices : List Nat} {s : σ}
    (h : e ∈ (p.generateRaw indices s).1.1) : ∃ t ∈ p.targets, p.Yields t e := by
  have htargets : ∀ t ∈ indices.filterMap fun i => p.targets[i]?, t ∈ p.targets := by
    intro t ht
    obtain ⟨i, -, hi⟩ := List.mem_filterMap.1 ht
    exact List.mem_of_getElem? hi
  simp only [generateRaw, List.mem_reverse] at h
  rcases yields_of_mem_enrichAll h with h | ⟨t, ht, h⟩
  · rcases yields_of_mem_targetAll h with h | ⟨t, ht, h⟩
    · cases h
    · exact ⟨t, htargets t ht, h⟩
  · obtain ⟨⟨t, report⟩, hentry, rfl⟩ := List.mem_map.1 ht
    exact ⟨t, htargets t (List.of_mem_zip hentry).1, h⟩

/-- Where the pool has enough examples of each target, enrichment makes no attempt. -/
theorem enrichAll_of_filled {entries : List (Target × RouteReport)} {pool : List Example}
    (h : ∀ entry ∈ entries, p.config.enrichmentTarget ≤ countOf entry.1.signature pool) (s : σ) :
    p.enrichAll entries pool s = ((entries.map Prod.snd, pool), s) := by
  induction entries with
  | nil => rfl
  | cons entry rest ih =>
    obtain ⟨hfilled, hrest⟩ := List.forall_mem_cons.1 h
    obtain ⟨t, report⟩ := entry
    have hdone : p.enrich t (countOf t.signature pool) 0 ⟨pool, report⟩ s =
        (⟨pool, report⟩, s) := by
      rw [enrich, dif_neg fun hgoes => Nat.not_lt.2 hfilled hgoes.1]
    rw [enrichAll, hdone]
    simp only [ih hrest, List.map_cons]

/-- A plan that aims at no further examples leaves the pool of the targeted phase as it is. -/
theorem pool_enrichAll (h : p.config.enrichmentTarget = 0) (entries : List (Target × RouteReport))
    (pool : List Example) (s : σ) : (p.enrichAll entries pool s).1.2 = pool := by
  rw [enrichAll_of_filled fun _ _ => h ▸ Nat.zero_le _]

theorem pool_generateRaw (h : p.config.enrichmentTarget = 0) (indices : List Nat) (s : σ) :
    (p.generateRaw indices s).1.1 =
      (p.targetAll (indices.filterMap fun i => p.targets[i]?) [] s).1.2.reverse := by
  rw [generateRaw]
  exact congrArg List.reverse (pool_enrichAll h ..)

/-! ### What is handed out -/

theorem hits_of_mem_firstOnTarget {left : Nat} {s : σ} (h : e ∈ (p.firstOnTarget t left s).1) :
    p.Hits t e := by
  induction left generalizing s with
  | zero => cases h
  | succ left ih =>
    rw [firstOnTarget] at h
    split at h
    · next e' s' hattempt =>
      apply hits_of_attempt (s := s)
      rw [hattempt, Option.some.inj h]
    · exact ih h

theorem hits_of_mem_exampleFor {s : σ} (h : e ∈ (p.exampleFor t s).1) : p.Hits t e := by
  rw [exampleFor] at h
  split at h
  · exact hits_of_mem_firstOnTarget h
  · cases h

theorem yields_of_mem_exampleAt {index : Nat} {s : σ} (h : e ∈ (p.exampleAt index s).1) :
    ∃ t ∈ p.targets, p.Yields t e := by
  rw [exampleAt] at h
  split at h
  · cases h
  · next t ht => exact ⟨t, List.mem_of_getElem? ht, yields_of_hits (hits_of_mem_exampleFor h)⟩

theorem yields_of_mem_exampleOfSignature {signature : String} {s : σ}
    (h : e ∈ (p.exampleOfSignature signature s).1) : ∃ t ∈ p.targets, p.Yields t e := by
  rw [exampleOfSignature] at h
  split at h
  · cases h
  · next t ht =>
    exact ⟨t, (signature_of_targetOf?_eq_some ht).1, yields_of_hits (hits_of_mem_exampleFor h)⟩

theorem yields_of_mem_examplesAt {indices : List Nat} {s : σ}
    (h : e ∈ (p.examplesAt indices s).1) : ∃ t ∈ p.targets, p.Yields t e := by
  simp only [examplesAt] at h
  split at h
  · exact yields_of_mem_generateRaw h
  · cases h

theorem yields_of_mem_generate {count : Nat} {s : σ} {tables : Tables}
    (h : e ∈ (p.generate count s tables).1.1) : ∃ t ∈ p.targets, p.Yields t e := by
  simp only [generate] at h
  split at h
  · exact yields_of_mem_generateRaw (mem_of_mem_selectDiverse h)
  · cases h

theorem yields_of_mem_generateSplit {count workers seed : Nat} {tables : Tables}
    (h : e ∈ p.generateSplit count workers seed tables) : ∃ t ∈ p.targets, p.Yields t e := by
  rw [generateSplit] at h
  split at h
  · obtain ⟨pool, hpool, he⟩ := List.mem_flatten.1 (mem_of_mem_selectDiverse h)
    obtain ⟨worker, hworker, rfl⟩ := List.mem_mapIdx.1 hpool
    exact yields_of_mem_generateRaw he
  · cases h

end Plan

end ProcedureChart
