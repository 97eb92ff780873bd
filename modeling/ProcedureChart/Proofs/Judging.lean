import ProcedureChart.Generate.Attempt

/-!
# What a judgement says

A candidate is rejected, or it comes to a walk in a context of its own in which the conditions of
the chart hold (`judge_cases`). The walk is then the intended route, with its constraints satisfied,
or an example of another route (`judgeWalk_cases`). Nothing else about judging is needed elsewhere.
-/

namespace ProcedureChart

/-- The validation and the generation constraints of a chart hold in a context. -/
structure Chart.Permits (c : Chart) (ctx : Context) : Prop where
  validation : ∀ f ∈ c.definition.problemInput.validation, f.holds ctx
  constraints : ∀ f ∈ c.definition.constraints.values, f.holds ctx

/-- The context that an example makes up: its values, the variables computed from them, and the
wishes of the user. -/
def Example.OwnContext (c : Chart) (userState : Scope) (e : Example) (ctx : Context) : Prop :=
  ∃ computed,
    FixedPoint.resolve (fun f computed => f.eval { problem := e.values, computed, userState })
      c.definition.computed.entries .empty = .ok computed ∧
    ctx = { problem := e.values, computed, userState }

/-- In a chart without variables an example makes up its context by its values. -/
theorem Example.OwnContext.eq {c : Chart} {userState : Scope} {e : Example} {ctx : Context}
    (h : e.OwnContext c userState ctx) (hcomputed : c.definition.computed = .empty) :
    ctx = { problem := e.values, userState } := by
  obtain ⟨computed, hresolve, rfl⟩ := h
  rw [hcomputed] at hresolve
  obtain rfl : .empty = computed := Except.ok.inj hresolve
  rfl

namespace Plan

variable {p : Plan} {t : Target} {drawn : Scope}

/-- A candidate that is not rejected outright has values and variables that make up a context, the
chart permits this context, and the walk in it is judged. No candidate is rejected for want of a
value. -/
theorem judge_cases (p : Plan) (t : Target) (drawn : Scope) :
    (∃ reason, reason ≠ .noValue ∧ p.judge t drawn = .rejected reason) ∨
      ∃ values computed, p.derive? drawn = .ok values ∧ p.compute? values = .ok computed ∧
        p.chart.Permits (p.context values computed) ∧
        p.judge t drawn = p.judgeWalk t values (p.context values computed) := by
  rw [judge]
  split
  · exact .inl ⟨.derivation, by decide, rfl⟩
  · next values hvalues =>
    split
    · exact .inl ⟨.computation, by decide, rfl⟩
    · next computed hcomputed =>
      dsimp only
      split
      · exact .inl ⟨.validation, by decide, rfl⟩
      · next hvalidation =>
        split
        · exact .inl ⟨.constraint, by decide, rfl⟩
        · next hconstraints =>
          rw [Bool.not_eq_true, Bool.not_eq_false'] at hvalidation hconstraints
          refine .inr ⟨values, computed, hvalues, hcomputed, ⟨?_, ?_⟩, rfl⟩
          · intro f hf
            exact (Option.all_eq_true _ _).1 hvalidation f hf
          · intro f hf
            exact List.all_eq_true.1 hconstraints f hf

/-- A walk that is not rejected is the route of the target, whose constraints hold, or another
one. -/
theorem judgeWalk_cases (p : Plan) (t : Target) (values : Scope) (ctx : Context) :
    (∃ reason, reason ≠ .noValue ∧ p.judgeWalk t values ctx = .rejected reason) ∨
      ∃ route, p.chart.walk ctx (some t.route.nodeIds) = some route ∧
        ((route = t.route.nodeIds ∧ t.route.replays ctx ∧
            p.judgeWalk t values ctx = .onTarget (.ofRoute t.route values)) ∨
          (route ≠ t.route.nodeIds ∧
            p.judgeWalk t values ctx = .offTarget (p.exampleOf route values))) := by
  rw [judgeWalk]
  split
  · exact .inl ⟨.walk, by decide, rfl⟩
  · next route hwalk =>
    split
    · next hroute =>
      split
      · next hreplays => exact .inr ⟨route, hwalk, .inl ⟨hroute, hreplays, rfl⟩⟩
      · exact .inl ⟨.replay, by decide, rfl⟩
    · next hroute => exact .inr ⟨route, hwalk, .inr ⟨hroute, rfl⟩⟩

/-- An example on target is that of the intended route, which is walked and replays. All the steps
of the judgement have succeeded for it, and the others end in a rejection or off target. -/
theorem exists_of_judge_onTarget {e : Example} (h : p.judge t drawn = .onTarget e) :
    ∃ values computed, p.derive? drawn = .ok values ∧ p.compute? values = .ok computed ∧
      p.chart.Permits (p.context values computed) ∧ e = .ofRoute t.route values ∧
      t.route.replays (p.context values computed) ∧
      p.chart.walk (p.context values computed) (some t.route.nodeIds) = some t.route.nodeIds := by
  obtain ⟨reason, -, hreason⟩ | ⟨values, computed, hvalues, hcomputed, hpermits, hjudge⟩ :=
    p.judge_cases t drawn
  · rw [h] at hreason
    cases hreason
  · rw [h] at hjudge
    refine ⟨values, computed, hvalues, hcomputed, hpermits, ?_⟩
    obtain ⟨reason, -, hreason⟩ | ⟨route, hwalk, ⟨rfl, hreplays, hon⟩ | ⟨-, hoff⟩⟩ :=
      p.judgeWalk_cases t values (p.context values computed)
    · rw [hreason] at hjudge
      cases hjudge
    · rw [hon] at hjudge
      exact ⟨Attempt.onTarget.inj hjudge, hreplays, hwalk⟩
    · rw [hoff] at hjudge
      cases hjudge

end Plan

end ProcedureChart
