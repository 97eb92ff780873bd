import ProcedureChart.Proofs.Hints
import ProcedureChart.Proofs.Judging
import ProcedureChart.Proofs.Pools

/-!
# Every example is genuine

An example carries the values of a problem and the signature of a route, but not the context in
which it was accepted. It is genuine if the context can be computed from the values again, and if
in this context the conditions of the chart hold and the problem walks a route of that signature,
with the route itself as the hint (`Example.Genuine`). A candidate is walked with the hint of the
route it was meant for, which for an example off target is another route; that its own route serves
as well is `Chart.walk_own_route`.
-/

namespace ProcedureChart

/-- The conditions of a chart hold of an example in a context, and the walk of its own route is of
its signature. -/
structure Example.HoldsIn (c : Chart) (ctx : Context) (e : Example) : Prop where
  validation : ∀ f ∈ c.definition.problemInput.validation, f.holds ctx = true
  constraints : ∀ f ∈ c.definition.constraints.values, f.holds ctx = true
  walk : ∃ route, signatureOf route = e.signature ∧ c.walk ctx (some route) = some route

/-- The variables of an example can be computed from its values, and it holds in the context that
they make up together. -/
def Example.Genuine (c : Chart) (userState : Scope) (e : Example) : Prop :=
  ∃ computed,
    FixedPoint.resolve (fun f computed => f.eval { problem := e.values, computed, userState })
      c.definition.computed.entries .empty = .ok computed ∧
    e.HoldsIn c { problem := e.values, computed, userState }

namespace Plan

variable {p : Plan} {t : Target} {e : Example}

/-! ### What is accepted -/

@[simp] theorem values_exampleOf (p : Plan) (route : List String) (values : Scope) :
    (p.exampleOf route values).values = values := by
  rw [exampleOf]
  split <;> rfl

/-- Whatever an example is labelled by, its signature is that of the walk. -/
@[simp] theorem signature_exampleOf (p : Plan) (route : List String) (values : Scope) :
    (p.exampleOf route values).signature = signatureOf route := by
  rw [exampleOf]
  split
  · next t ht =>
    obtain ⟨-, hsignature⟩ := signature_of_targetOf?_eq_some ht
    rw [← hsignature, t.signature_eq]
    rfl
  · rfl

/-- An accepted walk is the walk of a route of the example's signature. The route that the walk
takes is its own hint, both where it is the target and where it is another one. -/
theorem exists_walk_of_judgeWalk {values : Scope} {ctx : Context}
    (h : (p.judgeWalk t values ctx).example? = some e) :
    e.values = values ∧
      ∃ route, signatureOf route = e.signature ∧ p.chart.walk ctx (some route) = some route := by
  obtain ⟨reason, -, hreason⟩ | ⟨route, hwalk, ⟨rfl, -, hon⟩ | ⟨-, hoff⟩⟩ :=
    p.judgeWalk_cases t values ctx
  · rw [hreason] at h
    cases h
  · rw [hon] at h
    cases h
    exact ⟨rfl, t.route.nodeIds, rfl, Chart.walk_own_route hwalk⟩
  · rw [hoff] at h
    cases h
    exact ⟨p.values_exampleOf route values, route, (p.signature_exampleOf route values).symm,
      Chart.walk_own_route hwalk⟩

/-- **Accepted candidates are genuine.** The judge has evaluated the variables, the validation and
the constraints in the context that the example is genuine in, and the route of the example is that
of its walk, or the intended one that the walk has confirmed. -/
theorem genuine_of_yields (h : p.Yields t e) : e.Genuine p.chart p.userState := by
  obtain ⟨drawn, h⟩ := h
  obtain ⟨reason, -, hreason⟩ | ⟨values, computed, -, hcomputed, hpermits, hjudge⟩ :=
    p.judge_cases t drawn
  · rw [hreason] at h
    cases h
  · rw [hjudge] at h
    obtain ⟨rfl, hwalk⟩ := exists_walk_of_judgeWalk h
    exact ⟨computed, hcomputed, hpermits.validation, hpermits.constraints, hwalk⟩

end Plan

/-- **Every example handed out is genuine**: in its own context, computed from its values, the
validation and all generation constraints of the chart hold, and the walk along its own route
reproduces the signature it was labelled with. This is so for whole runs and split runs, for raw
pools and for single routes, whatever the configuration, the wishes of the user, the source of
randomness and the tables of the selection. -/
theorem examples_genuine (c : Chart) (config : Config) (constraints : UserConstraints) :
    (∀ {σ : Type} [RandomSource σ] (count : Nat) (s : σ) (tables : Tables),
      ∀ e ∈ ((Plan.make c config constraints).generate count s tables).1.1,
        e.Genuine c constraints.toUserState) ∧
    (∀ count workers seed tables,
      ∀ e ∈ (Plan.make c config constraints).generateSplit count workers seed tables,
        e.Genuine c constraints.toUserState) ∧
    (∀ {σ : Type} [RandomSource σ] (indices : List Nat) (s : σ),
      ∀ e ∈ ((Plan.make c config constraints).examplesAt indices s).1,
        e.Genuine c constraints.toUserState) ∧
    (∀ {σ : Type} [RandomSource σ] (index : Nat) (s : σ),
      ∀ e ∈ ((Plan.make c config constraints).exampleAt index s).1,
        e.Genuine c constraints.toUserState) ∧
    ∀ {σ : Type} [RandomSource σ] (signature : String) (s : σ),
      ∀ e ∈ ((Plan.make c config constraints).exampleOfSignature signature s).1,
        e.Genuine c constraints.toUserState := by
  have hgenuine : ∀ e, (∃ t ∈ (Plan.make c config constraints).targets,
      (Plan.make c config constraints).Yields t e) → e.Genuine c constraints.toUserState := by
    rintro e ⟨t, -, h⟩
    exact Plan.genuine_of_yields h
  exact ⟨fun _ _ _ e h => hgenuine e (Plan.yields_of_mem_generate h),
    fun _ _ _ _ e h => hgenuine e (Plan.yields_of_mem_generateSplit h),
    fun _ _ e h => hgenuine e (Plan.yields_of_mem_examplesAt h),
    fun _ _ e h => hgenuine e (Plan.yields_of_mem_exampleAt h),
    fun _ _ e h => hgenuine e (Plan.yields_of_mem_exampleOfSignature h)⟩

end ProcedureChart
