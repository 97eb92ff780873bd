import ProcedureChart.Proofs.Labels
import ProcedureChart.Proofs.Logs

/-!
# What can be drawn for a route

Chance decides which value of a field is drawn, not whether there is one. A field is drawn from its
preferred values and its domain as far as they pass the filters of the route, so a draw fails if
nothing is left of either (`FieldPlan.draw_cases`), and an attempt has no value to draw either
always or never (`noValue_all_or_nothing`).
-/

namespace ProcedureChart

/-- Whether a value passes all filters of a route on a field. -/
def Definition.Suits (d : Definition) (r : Route) (field : String) (v : Value) : Prop :=
  ∀ filter ∈ d.routeFilters r, filter.field = field → filter.accepts v

instance (d : Definition) (r : Route) (field : String) (v : Value) :
    Decidable (d.Suits r field v) :=
  inferInstanceAs (Decidable (∀ filter ∈ d.routeFilters r, filter.field = field → filter.accepts v))

namespace FieldPlan

variable {σ : Type} [RandomSource σ]

/-- All values from which a field can be drawn. -/
def values (p : FieldPlan) : List Value := p.preferred ++ p.domain

/-- The values of a field are the preferred ones and those of its domain that pass its filters. -/
theorem mem_values_ofField {f : InputField} {preferred : List Value} {filters : List FieldFilter}
    {cap : Nat} {v : Value} : v ∈ (ofField f preferred filters cap).values ↔
      v ∈ preferred ++ f.domain cap ∧
        ∀ filter ∈ filters, filter.field = f.name → filter.accepts v := by
  simp only [values, ofField, ← List.filter_append, List.mem_filter, List.all_eq_true,
    beq_iff_eq, and_imp]

/-! ### Draws -/

/-- Nothing is picked from nothing, and one of the values otherwise. -/
theorem pick_cases (pool : List Value) (s : σ) :
    (pool = [] ∧ (pick pool s).1 = none) ∨ ∃ v ∈ pool, (pick pool s).1 = some v := by
  rw [pick]
  split
  · next hempty => exact .inl ⟨List.isEmpty_iff.1 hempty, rfl⟩
  · next hempty =>
    have hne : pool ≠ [] := fun h => hempty (List.isEmpty_iff.2 h)
    have hlt := Draw.index_lt (List.length_pos_iff.2 hne) s
    exact .inr ⟨_, List.getElem_mem hlt, List.getElem?_eq_getElem hlt⟩

/-- A draw fails where there is no value, and gives one of the values otherwise. The coin is tossed
only where both the preferred values and the domain have some, so it cannot choose an empty side. -/
theorem draw_cases (p : FieldPlan) (bias : Float) (s : σ) :
    (p.values = [] ∧ (p.draw bias s).1 = none) ∨ ∃ v ∈ p.values, (p.draw bias s).1 = some v := by
  have hpreferred : ∀ v ∈ p.preferred, v ∈ p.values := fun v => List.mem_append_left _
  have hdomain : ∀ v ∈ p.domain, v ∈ p.values := fun v => List.mem_append_right _
  rw [draw]
  split
  · next hempty =>
    rcases pick_cases p.domain s with ⟨hnone, hpick⟩ | ⟨v, hv, hpick⟩
    · exact .inl ⟨by rw [values, List.isEmpty_iff.1 hempty, hnone]; rfl, hpick⟩
    · exact .inr ⟨v, hdomain v hv, hpick⟩
  · next hsome =>
    have hne : p.preferred ≠ [] := fun h => hsome (List.isEmpty_iff.2 h)
    split
    · obtain ⟨v, hv, hpick⟩ := (pick_cases p.preferred s).resolve_left fun h => hne h.1
      exact .inr ⟨v, hpreferred v hv, hpick⟩
    · next hdomainSome =>
      have hne' : p.domain ≠ [] := fun h => hdomainSome (List.isEmpty_iff.2 h)
      right
      -- the coin decides between two sides that both have a value
      simp only [bind, StateT.bind]
      rcases Draw.chance bias s with ⟨_ | _, s'⟩
      · obtain ⟨v, hv, hpick⟩ := (pick_cases p.domain s').resolve_left fun h => hne' h.1
        exact ⟨v, hdomain v hv, hpick⟩
      · obtain ⟨v, hv, hpick⟩ := (pick_cases p.preferred s').resolve_left fun h => hne h.1
        exact ⟨v, hpreferred v hv, hpick⟩

theorem mem_values_of_draw {p : FieldPlan} {bias : Float} {s : σ} {v : Value}
    (h : (p.draw bias s).1 = some v) : v ∈ p.values := by
  rcases p.draw_cases bias s with ⟨-, hnone⟩ | ⟨w, hw, hsome⟩
  · rw [h] at hnone
    cases hnone
  · rw [h] at hsome
    cases hsome
    exact hw

/-- The draws for some fields fail if and only if some field has no values. Neither the state nor
what has been drawn already has any part in it. -/
theorem drawAll_eq_none_iff {bias : Float} {plans : List FieldPlan} {scope : Scope} {s : σ} :
    (drawAll bias plans scope s).1 = none ↔ ∃ p ∈ plans, p.values = [] := by
  induction plans generalizing scope s with
  | nil =>
    constructor
    · intro h
      cases h
    · rintro ⟨p, hp, -⟩
      cases hp
  | cons p rest ih =>
    rw [drawAll_cons, List.exists_mem_cons_iff]
    rcases p.draw_cases bias s with ⟨hempty, hdraw⟩ | ⟨v, hv, hdraw⟩
    · split
      · exact ⟨fun _ => .inl hempty, fun _ => rfl⟩
      · next heq =>
        rw [heq] at hdraw
        cases hdraw
    · split
      · next heq =>
        rw [heq] at hdraw
        cases hdraw
      · rw [ih]
        exact (or_iff_right (List.ne_nil_of_mem hv)).symm

/-- What holds of the values of all fields holds of what is drawn. A field that is drawn twice keeps
the later value, which is one of its values as well. -/
theorem forall_of_drawAll {P : String → Value → Prop} {bias : Float} {plans : List FieldPlan}
    {scope drawn : Scope} {s : σ} (h : (drawAll bias plans scope s).1 = some drawn)
    (hplans : ∀ p ∈ plans, ∀ v ∈ p.values, P p.name v)
    (hscope : ∀ name v, scope.get? name = some v → P name v) {name : String} {v : Value}
    (hv : drawn.get? name = some v) : P name v := by
  induction plans generalizing scope s with
  | nil =>
    cases h
    exact hscope name v hv
  | cons p rest ih =>
    obtain ⟨hfirst, hrest⟩ := List.forall_mem_cons.1 hplans
    rw [drawAll_cons] at h
    split at h
    · cases h
    · next w s' hdraw =>
      refine ih h hrest ?_
      intro other u hu
      rw [Table.get?_insert] at hu
      split at hu
      · next heq =>
        cases hu
        exact heq ▸ hfirst w (mem_values_of_draw (by rw [hdraw]))
      · exact hscope other u hu

end FieldPlan

namespace Plan

variable {σ : Type} [RandomSource σ] {p : Plan} {t : Target} {s : σ}

/-! ### Attempts -/

/-- A candidate is never rejected for want of a value: this reason is left to the draws, which come
before the candidate is judged. -/
theorem judge_ne_noValue (p : Plan) (t : Target) (drawn : Scope) :
    p.judge t drawn ≠ .rejected .noValue := by
  intro h
  obtain ⟨reason, hreason, hrejected⟩ | ⟨values, computed, -, -, -, hjudge⟩ := p.judge_cases t drawn
  · rw [h] at hrejected
    exact hreason (Attempt.rejected.inj hrejected).symm
  rw [h] at hjudge
  obtain ⟨reason, hreason, hrejected⟩ | ⟨route, -, ⟨-, -, hon⟩ | ⟨-, hoff⟩⟩ :=
    p.judgeWalk_cases t values (p.context values computed)
  · rw [← hjudge] at hrejected
    exact hreason (Attempt.rejected.inj hrejected).symm
  · rw [← hjudge] at hon
    cases hon
  · rw [← hjudge] at hoff
    cases hoff

/-- An attempt is rejected for want of a value if and only if some field has no values, which has
nothing to do with the source. -/
theorem attempt_eq_noValue_iff :
    (p.attempt t s).1 = .rejected .noValue ↔ ∃ f ∈ t.fields, f.values = [] := by
  have hdrawn : (FieldPlan.drawAll p.config.preferredBias t.fields .empty s).1 = none ↔
      ∃ f ∈ t.fields, f.values = [] := FieldPlan.drawAll_eq_none_iff
  rw [← hdrawn, attempt]
  split
  · next heq =>
    rw [heq]
    exact iff_of_true rfl rfl
  · next heq =>
    rw [heq]
    exact iff_of_false (judge_ne_noValue p t _) (Option.some_ne_none _)

/-- What a field of a target can be drawn from suits the route. -/
theorem suits_of_mem_values {c : Chart} {config : Config} {constraints : UserConstraints}
    (ht : t ∈ (Plan.make c config constraints).targets) {f : FieldPlan} (hf : f ∈ t.fields)
    {v : Value} (hv : v ∈ f.values) : c.definition.Suits t.route f.name v := by
  obtain ⟨field, -, rfl⟩ := (mem_fields_iff ht).1 hf
  exact (FieldPlan.mem_values_ofField.1 hv).2

/-- Some field of a target has no values if and only if none of the values of some independent field
suits the route. -/
theorem exists_values_eq_nil_iff {c : Chart} {config : Config} {constraints : UserConstraints}
    (ht : t ∈ (Plan.make c config constraints).targets) :
    (∃ f ∈ t.fields, f.values = []) ↔ ∃ f ∈ c.definition.independentFields,
      ∀ v ∈ c.definition.preferred f.name ++ f.domain config.domainCap,
        ¬ c.definition.Suits t.route f.name v := by
  have hempty (f : InputField) :
      (FieldPlan.ofField f (c.definition.preferred f.name) (c.definition.routeFilters t.route)
          config.domainCap).values = [] ↔
        ∀ v ∈ c.definition.preferred f.name ++ f.domain config.domainCap,
          ¬ c.definition.Suits t.route f.name v := by
    simp only [List.eq_nil_iff_forall_not_mem, FieldPlan.mem_values_ofField, not_and]
    rfl
  constructor
  · rintro ⟨plan, hplan, hnone⟩
    obtain ⟨f, hf, rfl⟩ := (mem_fields_iff ht).1 hplan
    exact ⟨f, hf, (hempty f).1 hnone⟩
  · rintro ⟨f, hf, hnone⟩
    exact ⟨_, (mem_fields_iff ht).2 ⟨f, hf, rfl⟩, (hempty f).2 hnone⟩

/-- An account counts all attempts as rejected for want of a value or none, because the attempts of
a route differ in the state of the draws only. -/
theorem Logs.noValue {targets : List Target} {run : (List Example × List RouteReport) × σ}
    {logs : List RouteLog} (h : p.Logs targets s run logs) {log : RouteLog} (hlog : log ∈ logs)
    {r : RouteReport} (htells : r.Tells log) :
    r.rejections.noValue = 0 ∨ r.rejections.noValue = r.attempts + r.enrichmentAttempts := by
  have hcount : r.rejections.noValue = log.outcomes.count (.rejected .noValue) :=
    htells.rejections .noValue
  rw [hcount, ← htells.length_outcomes]
  by_cases hempty : ∃ f ∈ log.target.fields, f.values = []
  · right
    rw [List.count_eq_length]
    intro a ha
    obtain ⟨s, rfl⟩ := h.exists_attempt hlog ha
    exact (attempt_eq_noValue_iff.2 hempty).symm
  · left
    rw [List.count_eq_zero]
    intro ha
    obtain ⟨s, hattempt⟩ := h.exists_attempt hlog ha
    exact hempty (attempt_eq_noValue_iff.1 hattempt)

end Plan

/-- **Want of a value is all or nothing**, for every chart, configuration, user's wishes and source.
An attempt at a target is rejected for want of a value with one state of the source if and only if
it is with every state, and that is if some independent field has neither a preferred value nor a
value of its domain that suits the route. Every value that is drawn suits the route. So each account
of a raw run counts none of its attempts as rejected for want of a value, or all of them. -/
theorem noValue_all_or_nothing {σ : Type} [RandomSource σ] (c : Chart) (config : Config)
    (constraints : UserConstraints) :
    let plan := Plan.make c config constraints
    let d := c.definition
    (∀ t ∈ plan.targets, ∀ s : σ,
      ((plan.attempt t s).1 = .rejected .noValue ↔
        ∀ s' : σ, (plan.attempt t s').1 = .rejected .noValue) ∧
      ((plan.attempt t s).1 = .rejected .noValue ↔
        ∃ f ∈ d.independentFields, ∀ v ∈ d.preferred f.name ++ f.domain config.domainCap,
          ¬ d.Suits t.route f.name v) ∧
      (∀ f ∈ t.fields, ∀ v, (f.draw config.preferredBias s).1 = some v →
        d.Suits t.route f.name v) ∧
      ∀ drawn, (FieldPlan.drawAll config.preferredBias t.fields .empty s).1 = some drawn →
        ∀ name v, drawn.get? name = some v → d.Suits t.route name v) ∧
    ∀ (indices : List Nat) (s : σ), ∀ r ∈ (plan.generateRaw indices s).1.2,
      r.rejections.noValue = 0 ∨ r.rejections.noValue = r.attempts + r.enrichmentAttempts := by
  intro plan d
  refine ⟨fun t ht s => ⟨?_, ?_, ?_, ?_⟩, ?_⟩
  · constructor
    · intro h s'
      exact Plan.attempt_eq_noValue_iff.2 (Plan.attempt_eq_noValue_iff.1 h)
    · intro h
      exact h s
  · rw [Plan.attempt_eq_noValue_iff]
    exact Plan.exists_values_eq_nil_iff ht
  · intro f hf v hdraw
    exact Plan.suits_of_mem_values ht hf (FieldPlan.mem_values_of_draw hdraw)
  · intro drawn hdrawn name v hv
    refine FieldPlan.forall_of_drawAll (P := d.Suits t.route) hdrawn ?_ ?_ hv
    · intro f hf v hv
      exact Plan.suits_of_mem_values ht hf hv
    · intro name v hv
      cases hv
  · intro indices s r hr
    obtain ⟨logs, hlogs, -⟩ := plan.exists_logs_generateRaw indices s
    obtain ⟨log, hlog, htells⟩ := RouteReport.exists_tells_of_mem hlogs.reports hr
    exact hlogs.noValue hlog htells

/-- The number 12 is not drawn where a route requires more than 20, whatever the state. No other
number is there to be drawn instead. -/
theorem noValue_all_or_nothing_gate :
    ∃ t ∈ (Plan.make (gateChart loneOption 12) {} {}).targets,
      (∀ v ∈ [Value.number 12], ¬ (gateChart loneOption 12).definition.Suits t.route "n" v) ∧
      ∀ s : Mulberry32, ((Plan.make (gateChart loneOption 12) {} {}).attempt t s).1 =
        .rejected .noValue := by
  have hbarred : ∃ t ∈ (Plan.make (gateChart loneOption 12) {} {}).targets,
      (∀ v ∈ [Value.number 12], ¬ (gateChart loneOption 12).definition.Suits t.route "n" v) ∧
      ∃ f ∈ (gateChart loneOption 12).definition.independentFields,
        ∀ v ∈ (gateChart loneOption 12).definition.preferred f.name ++ f.domain 2000,
          ¬ (gateChart loneOption 12).definition.Suits t.route f.name v := by
    decide +kernel
  obtain ⟨t, ht, hnumber, hfield⟩ := hbarred
  refine ⟨t, ht, hnumber, fun s => ?_⟩
  obtain ⟨-, hiff, -⟩ := (noValue_all_or_nothing (gateChart loneOption 12) {} {}).1 t ht s
  exact hiff.2 hfield

end ProcedureChart
