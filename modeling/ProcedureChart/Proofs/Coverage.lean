import Mathlib.Data.List.Perm.Subperm
import ProcedureChart.Proofs.Diversity
import ProcedureChart.Proofs.Labels
import ProcedureChart.Proofs.Logs

/-!
# Every route that was hit is represented

The account of a route counts its hits, and the log of a run has an example with the label of the
route for each of them, which is put into the pool. So an account is backed by the pool
(`RouteReport.Backed`). The selection begins with one example for each label in the pool, and there
are no more labels than routes. A run that is asked for as many examples as there are routes
therefore returns an example for each route that was hit (`generate_covers_hits`).
-/

namespace ProcedureChart

/-- The account of a target goes under its signature and its label, and where it counts a hit there
is an example of this label in the pool. -/
structure RouteReport.Backed (pool : List Example) (t : Target) (r : RouteReport) : Prop where
  signature : r.signature = t.signature
  label : r.label = t.route.descriptor
  hit : 0 < r.hits → ∃ e ∈ pool, e.descriptor = t.route.descriptor

theorem RouteReport.hits_of_outcome_eq_hit {r : RouteReport} (h : r.outcome = .hit) :
    0 < r.hits := by
  rw [outcome] at h
  split at h
  · assumption
  · cases h

namespace Plan

variable {σ : Type} [RandomSource σ] {p : Plan} {t : Target}

/-- An example on target has the label of the route. -/
theorem descriptor_of_hits {e : Example} (h : p.Hits t e) :
    e.descriptor = t.route.descriptor := by
  obtain ⟨hlabel, -⟩ := replays_of_hits h
  rw [hlabel]
  rfl

/-- What a log says is backed by the pool. A route that was hit has an example of its own label,
because the hit was an attempt of the log and attempts on target are pooled. -/
theorem Logs.backed {targets : List Target} {s : σ} {run : (List Example × List RouteReport) × σ}
    {logs : List RouteLog} (h : p.Logs targets s run logs) {log : RouteLog} (hlog : log ∈ logs)
    {r : RouteReport} (htells : r.Tells log) : r.Backed run.1.1 log.target where
  signature := htells.signature
  label := htells.label
  hit := by
    intro hhits
    rw [htells.hits, List.countP_pos_iff] at hhits
    obtain ⟨a, ha, honTarget⟩ := hhits
    obtain ⟨s, hattempt⟩ := h.exists_attempt hlog ha
    cases a with
    | onTarget e =>
      exact ⟨e, h.mem_pool hlog ha rfl, descriptor_of_hits (hits_of_attempt hattempt)⟩
    | offTarget e => cases honTarget
    | rejected reason => cases honTarget

/-- The accounts of a raw run are backed by its pool. -/
theorem backed_generateRaw (indices : List Nat) (s : σ) :
    List.Forall₂ (fun t r => r.Backed (p.generateRaw indices s).1.1 t)
      (indices.filterMap fun i => p.targets[i]?) (p.generateRaw indices s).1.2 := by
  obtain ⟨logs, hlogs, -⟩ := p.exists_logs_generateRaw indices s
  rw [← hlogs.targets, List.forall₂_map_left_iff]
  refine ((List.forall₂_and_left _ _).2 ⟨fun log hlog => hlog, hlogs.reports.flip⟩).imp ?_
  rintro log r ⟨hlog, htells⟩
  exact hlogs.backed hlog htells

end Plan

/-! ### The selection -/

/-- If there is room for all labels of a pool, each of them is selected. -/
theorem exists_mem_selectDiverse {σ : Type} [RandomSource σ] (tables : Tables)
    {pool : List Example} {count : Nat} (s : σ)
    (hcount : (pool.map Example.descriptor).eraseDups.length ≤ count) {e : Example}
    (he : e ∈ pool) :
    ∃ e' ∈ (selectDiverse pool count s tables).1, e'.descriptor = e.descriptor := by
  have hperm := Group.perm_map_descriptor_groups tables pool
  have hselected := map_descriptor_selectDiverse tables pool s hcount (Nat.le_of_eq hperm.length_eq.symm)
  have hmem : e.descriptor ∈ (pool.map Example.descriptor).eraseDups :=
    List.mem_eraseDups.2 (List.mem_map_of_mem he)
  rw [← hperm.mem_iff, ← List.take_length (l := (Group.groups tables pool).map _), hperm.length_eq,
    ← hselected] at hmem
  obtain ⟨e', he', hdescriptor⟩ := List.mem_map.1 hmem
  exact ⟨e', List.mem_of_mem_take he', hdescriptor⟩

/-- The labels of a pool are no more than some texts that they are among. -/
theorem length_descriptors_le {pool : List Example} {labels : List String}
    (h : ∀ e ∈ pool, e.descriptor ∈ labels) :
    (pool.map Example.descriptor).eraseDups.length ≤ labels.length := by
  refine (List.Nodup.subperm (nodup_eraseDups _) ?_).length_le
  intro d hd
  obtain ⟨e, he, rfl⟩ := List.mem_map.1 (List.mem_eraseDups.1 hd)
  exact h e he

/-- The places of a list in order give the list. -/
theorem filterMap_getElem?_range {α : Type} (l : List α) :
    ((List.range l.length).filterMap fun i => l[i]?) = l := by
  induction l with
  | nil => rfl
  | cons a l ih =>
    rw [List.length_cons, List.range_succ_eq_map, List.filterMap_cons_some (b := a) (by simp),
      List.filterMap_map]
    exact congrArg _ ih

/-- **No hit is lost.** A ready run with a complete enumeration gives an account of each route, and
if it is asked for at least as many examples as there are routes, each route that was hit has its
label among the examples, whatever tables they are selected with. All labels among them are labels
of routes. -/
theorem generate_covers_hits {σ : Type} [RandomSource σ] (c : Chart) (config : Config)
    (constraints : UserConstraints) (s : σ) (tables : Tables) {count : Nat}
    (hready : (Plan.make c config constraints).isReady)
    (hcomplete : (c.analyze config.limits).truncated = false)
    (hcount : (c.analyze config.limits).routes.length ≤ count) :
    let run := ((Plan.make c config constraints).generate count s tables).1
    List.Forall₂
        (fun r account => account.signature = r.signature ∧ account.label = r.descriptor ∧
          (account.outcome = .hit → ∃ e ∈ run.1, e.descriptor = r.descriptor))
        (c.analyze config.limits).routes run.2.paths ∧
      ∀ e ∈ run.1, ∃ r ∈ (c.analyze config.limits).routes, e.descriptor = r.descriptor := by
  intro run
  obtain ⟨raw, hraw⟩ : ∃ raw, raw = (Plan.make c config constraints).generateRaw
    (List.range (Plan.make c config constraints).targets.length) s := ⟨_, rfl⟩
  have hexamples : run.1 = (selectDiverse raw.1.1 count raw.2 tables).1 := by
    simp only [run, Plan.generate, if_pos hready, hraw]
  have hpaths : run.2.paths = raw.1.2 := by
    simp only [run, Plan.generate, if_pos hready, hraw]
  have hlabels : ∀ e ∈ raw.1.1, ∃ r ∈ (c.analyze config.limits).routes,
      e.descriptor = r.descriptor := by
    intro e he
    obtain ⟨t, ht, hyields⟩ := Plan.yields_of_mem_generateRaw (hraw ▸ he)
    obtain ⟨r, hr, heq⟩ := Plan.exists_label_of_yields hcomplete ht hyields
    exact ⟨r, hr, by rw [heq]; rfl⟩
  have hroom : (raw.1.1.map Example.descriptor).eraseDups.length ≤ count := by
    have hamong : ∀ e ∈ raw.1.1, e.descriptor ∈ (c.analyze config.limits).routes.map
        Route.descriptor := by
      intro e he
      obtain ⟨r, hr, hdescriptor⟩ := hlabels e he
      exact hdescriptor ▸ List.mem_map_of_mem hr
    have hlength := length_descriptors_le hamong
    rw [List.length_map] at hlength
    exact Nat.le_trans hlength hcount
  have hbacked := (Plan.make c config constraints).backed_generateRaw
    (List.range (Plan.make c config constraints).targets.length) s
  rw [filterMap_getElem?_range, ← hraw] at hbacked
  constructor
  · rw [hpaths]
    refine (List.forall₂_map_left_iff.1 hbacked).imp ?_
    intro r account h
    refine ⟨h.signature, h.label, ?_⟩
    intro houtcome
    obtain ⟨e, he, hdescriptor⟩ := h.hit (RouteReport.hits_of_outcome_eq_hit houtcome)
    obtain ⟨e', he', hsame⟩ := exists_mem_selectDiverse tables raw.2 hroom he
    exact ⟨e', hexamples ▸ he', hsame.trans hdescriptor⟩
  · intro e he
    rw [hexamples] at he
    exact hlabels e (mem_of_mem_selectDiverse he)

/-- A run for the three routes of a gate with two options behind it. As many examples are asked for
as there are routes. -/
theorem generate_covers_hits_gate :
    (Plan.make (gateChart (sizeOptions "more") 12) {} {}).isReady ∧
      ((gateChart (sizeOptions "more") 12).analyze {}).truncated = false ∧
      ((gateChart (sizeOptions "more") 12).analyze {}).routes.length ≤ 3 ∧
      ∃ run,
        run = ((Plan.make (gateChart (sizeOptions "more") 12) {} {}).generate 3
          (Mulberry32.ofSeed 42)).1 ∧
        List.Forall₂
          (fun r account => account.signature = r.signature ∧ account.label = r.descriptor ∧
            (account.outcome = .hit → ∃ e ∈ run.1, e.descriptor = r.descriptor))
          ((gateChart (sizeOptions "more") 12).analyze {}).routes run.2.paths ∧
        ∀ e ∈ run.1, ∃ r ∈ ((gateChart (sizeOptions "more") 12).analyze {}).routes,
          e.descriptor = r.descriptor := by
  have hready : (Plan.make (gateChart (sizeOptions "more") 12) {} {}).isReady = true := by
    decide +kernel
  have hcomplete : ((gateChart (sizeOptions "more") 12).analyze {}).truncated = false := by
    decide +kernel
  have hcount : ((gateChart (sizeOptions "more") 12).analyze {}).routes.length ≤ 3 := by
    decide +kernel
  have hcovers := generate_covers_hits (gateChart (sizeOptions "more") 12) {} {}
    (Mulberry32.ofSeed 42) Tables.byBits hready hcomplete hcount
  exact ⟨hready, hcomplete, hcount, _, rfl, hcovers⟩

end ProcedureChart
