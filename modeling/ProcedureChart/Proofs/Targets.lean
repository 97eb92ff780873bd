import ProcedureChart.Generate.Plan

/-!
# The targets of a plan

The targets of a plan are the enumerated routes of its chart, each under its signature and with the
values that its fields can be drawn from. Looking a signature up finds a target of that signature
whenever there is one.
-/

namespace ProcedureChart

/-- The last route of a signature. -/
def Analysis.routeOf? (a : Analysis) (signature : String) : Option Route :=
  a.routes.reverse.find? fun r => r.signature == signature

theorem Analysis.signature_of_routeOf?_eq_some {a : Analysis} {signature : String} {r : Route}
    (h : a.routeOf? signature = some r) : r ∈ a.routes ∧ r.signature = signature :=
  ⟨List.mem_reverse.1 (List.mem_of_find?_eq_some h), by simpa using List.find?_some h⟩

namespace Plan

/-- A look-up finds the last target of a signature, since later targets take the place of earlier
ones. -/
theorem targetOf?_eq_find? (p : Plan) (signature : String) :
    p.targetOf? signature = p.targets.reverse.find? fun t => t.signature == signature := by
  have hfold : ∀ (l : List Target) (found : Option Target),
      l.foldl (fun found t => if t.signature == signature then some t else found) found =
        (l.reverse.find? fun t => t.signature == signature).or found := by
    intro l
    induction l with
    | nil => intro found; rfl
    | cons t rest ih =>
      intro found
      rw [List.foldl_cons, ih, List.reverse_cons, List.find?_append, Option.or_assoc]
      by_cases h : (t.signature == signature) = true
      · simp [h]
      · simp [h]
  rw [targetOf?, hfold, Option.or_none]

/-- What is found is a target of the signature. -/
theorem signature_of_targetOf?_eq_some {p : Plan} {signature : String} {t : Target}
    (h : p.targetOf? signature = some t) : t ∈ p.targets ∧ t.signature = signature := by
  rw [targetOf?_eq_find?] at h
  exact ⟨List.mem_reverse.1 (List.mem_of_find?_eq_some h), by simpa using List.find?_some h⟩

/-- If there is a target of a signature, one is found. -/
theorem exists_targetOf?_eq_some {p : Plan} {t : Target} (h : t ∈ p.targets) :
    ∃ t', p.targetOf? t.signature = some t' := by
  rw [targetOf?_eq_find?]
  refine Option.isSome_iff_exists.1 (List.find?_isSome.2 ⟨t, List.mem_reverse.2 h, ?_⟩)
  exact beq_self_eq_true _

/-- In the plan of a chart, what is found is the target of the last route of the signature. -/
theorem targetOf?_make (c : Chart) (config : Config) (constraints : UserConstraints)
    (signature : String) :
    (Plan.make c config constraints).targetOf? signature =
      ((c.analyze config.limits).routeOf? signature).map
        (Target.ofRoute c.definition config.domainCap) := by
  have htargets : (Plan.make c config constraints).targets =
      (c.analyze config.limits).routes.map (Target.ofRoute c.definition config.domainCap) := rfl
  rw [targetOf?_eq_find?, htargets, ← List.map_reverse, List.find?_map]
  rfl

/-- The fields of a target are planned from the independent fields, by the filters of its route. -/
theorem mem_fields_iff {c : Chart} {config : Config} {constraints : UserConstraints} {t : Target}
    (ht : t ∈ (Plan.make c config constraints).targets) {plan : FieldPlan} :
    plan ∈ t.fields ↔ ∃ f ∈ c.definition.independentFields,
      .ofField f (c.definition.preferred f.name) (c.definition.routeFilters t.route)
        config.domainCap = plan := by
  obtain ⟨r, -, rfl⟩ := List.mem_map.1 ht
  exact Definition.mem_planFields

end Plan

end ProcedureChart
