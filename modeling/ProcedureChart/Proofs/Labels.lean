import ProcedureChart.Proofs.Genuine
import ProcedureChart.Proofs.Signatures
import ProcedureChart.Proofs.WalkedRoutes

/-!
# What the labels of examples say

An example off target is labelled by looking the signature of its walk up among the routes. If the
enumeration is complete there is such a route, and as long as decisions heed their answers some
route of this signature replays in the context of the example (`labels_of_mem_generateRaw`). The
route that is found is the last one of the signature, and whether it replays is not looked at. So
the label may be that of an option that is not taken, where two options lead to one node, and that
of an option whose answer is false, where there is no other (`not_labels_of_mem_generateRaw`).
-/

namespace ProcedureChart

/-- Routes of one signature look alike: they have the same descriptor and are equally involved. -/
def Analysis.LooksAlike (a : Analysis) : Prop :=
  ∀ p ∈ a.routes, ∀ q ∈ a.routes, p.signature = q.signature →
    p.descriptor = q.descriptor ∧ p.complexity = q.complexity

instance (a : Analysis) : Decidable a.LooksAlike :=
  inferInstanceAs (Decidable (∀ p ∈ a.routes, ∀ q ∈ a.routes, p.signature = q.signature →
    p.descriptor = q.descriptor ∧ p.complexity = q.complexity))

theorem Chart.looksAlike_of_isUnambiguous {c : Chart} (h : c.isUnambiguous) (limits : Limits) :
    (c.analyze limits).LooksAlike := by
  intro p hp q hq hsignature
  obtain rfl := c.eq_of_signature_eq h (mem_listing_of_mem_enumerate hp)
    (mem_listing_of_mem_enumerate hq) hsignature
  exact ⟨rfl, rfl⟩

namespace Plan

variable {p : Plan} {t : Target} {e : Example}

/-- An accepted candidate is an example of the route it was meant for, which replays, or of the walk
it takes instead. -/
theorem cases_of_yields (h : p.Yields t e) :
    ∃ ctx, e.OwnContext p.chart p.userState ctx ∧
      ((e = .ofRoute t.route e.values ∧ t.route.replays ctx) ∨
        ∃ route, p.chart.walk ctx (some t.route.nodeIds) = some route ∧
          e = p.exampleOf route e.values) := by
  obtain ⟨drawn, h⟩ := h
  obtain ⟨reason, -, hreason⟩ | ⟨values, computed, -, hcomputed, -, hjudge⟩ := p.judge_cases t drawn
  · rw [hreason] at h
    cases h
  obtain ⟨reason, -, hreason⟩ | ⟨route, hwalk, ⟨-, hreplays, hon⟩ | ⟨-, hoff⟩⟩ :=
    p.judgeWalk_cases t values (p.context values computed)
  · rw [hjudge, hreason] at h
    cases h
  · rw [hjudge, hon] at h
    cases h
    exact ⟨_, ⟨computed, hcomputed, rfl⟩, .inl ⟨rfl, hreplays⟩⟩
  · rw [hjudge, hoff] at h
    cases h
    refine ⟨p.context values computed, ⟨computed, ?_, ?_⟩, .inr ⟨route, hwalk, ?_⟩⟩
    · rw [values_exampleOf]
      exact hcomputed
    · rw [values_exampleOf]
      rfl
    · rw [values_exampleOf]

/-- Where the enumeration is complete, every accepted candidate is labelled by a route. -/
theorem exists_label_of_yields {c : Chart} {config : Config} {constraints : UserConstraints}
    (hcomplete : (c.analyze config.limits).truncated = false)
    (ht : t ∈ (Plan.make c config constraints).targets)
    (h : (Plan.make c config constraints).Yields t e) :
    ∃ r ∈ (c.analyze config.limits).routes, e = .ofRoute r e.values := by
  obtain ⟨r, hr, rfl⟩ := List.mem_map.1 ht
  obtain ⟨ctx, -, ⟨hlabel, -⟩ | ⟨route, hwalk, hlabel⟩⟩ := cases_of_yields h
  · exact ⟨r, hr, hlabel⟩
  · obtain ⟨q, hq, -, hexample⟩ :=
      exists_exampleOf_eq config constraints e.values hcomplete hwalk
    exact ⟨q, hq, hlabel.trans hexample⟩

end Plan

/-- **Labels tell the truth** where the enumeration is complete: an example of a raw pool is
labelled by an enumerated route, and if decisions heed their answers there is an enumerated route of
its signature that replays in its own context. The other labels are those of this route as well, as
long as routes of one signature look alike. -/
theorem labels_of_mem_generateRaw {σ : Type} [RandomSource σ] (c : Chart) (config : Config)
    (constraints : UserConstraints) (indices : List Nat) (s : σ)
    (hcomplete : (c.analyze config.limits).truncated = false) {e : Example}
    (he : e ∈ ((Plan.make c config constraints).generateRaw indices s).1.1) :
    ∃ ctx, e.OwnContext c constraints.toUserState ctx ∧
      (∃ r ∈ (c.analyze config.limits).routes, e = .ofRoute r e.values) ∧
      (c.heedsAnswers → ∃ r ∈ (c.analyze config.limits).routes, r.replays ctx ∧
        e.signature = r.signature ∧
        ((c.analyze config.limits).LooksAlike →
          e.descriptor = r.descriptor ∧ e.complexity = r.complexity)) := by
  obtain ⟨t, ht, hyields⟩ := Plan.yields_of_mem_generateRaw he
  obtain ⟨q, hq, heq⟩ := Plan.exists_label_of_yields hcomplete ht hyields
  obtain ⟨r, hr, rfl⟩ := List.mem_map.1 ht
  obtain ⟨ctx, hctx, ⟨hlabel, hreplays⟩ | ⟨route, hwalk, hlabel⟩⟩ := Plan.cases_of_yields hyields
  · -- on target: the route that was meant
    refine ⟨ctx, hctx, ⟨q, hq, heq⟩, fun _ => ⟨r, hr, hreplays, ?_⟩⟩
    rw [hlabel]
    exact ⟨rfl, fun _ => ⟨rfl, rfl⟩⟩
  · -- off target: the route of the walk, which has the signature of the one that labels it
    refine ⟨ctx, hctx, ⟨q, hq, heq⟩, ?_⟩
    intro hheeds
    obtain ⟨walked, hlisted, hnodes, hreplays⟩ := Chart.exists_replaying_of_walk hheeds hwalk
    have hwalked : walked ∈ (c.analyze config.limits).routes := by
      rw [← Chart.enumerate_of_not_truncated hcomplete] at hlisted
      exact hlisted
    have hsignature : e.signature = walked.signature := by
      rw [hlabel, Plan.signature_exampleOf, Route.signature, hnodes]
    refine ⟨walked, hwalked, hreplays, hsignature, ?_⟩
    intro halike
    rw [heq] at hsignature ⊢
    exact halike q hq walked hwalked hsignature

/-- A chart with a gate, behind which another decision has the given options, and with one number
that can be drawn. -/
def gateChart (options : List DecisionOption) (number : Float) : Chart where
  definition := {
    id := "gate"
    title := "A gate"
    problemInput := { schema := "gate", fields := [{ name := "n" }] }
    entryNode := "gate"
    nodes := .ofList [
      ("gate", .decision {
        options := [
          { label := "Yes", value := "yes", next := some "check" },
          { label := "No", value := "no", next := some "end" }]
        correctAnswer := some ⟨.boolean, .ofSource "n > 2 + 2"⟩ }),
      ("check", .decision { options, correctAnswer := some ⟨.boolean, .ofSource "n > 20"⟩ }),
      ("more", .instruction { next := some "end" }),
      ("end", .terminal {})]
    generation := some { preferred := .ofList [("n", [.number number])] } }
  diagram := {}
  entry_defined := by simp [Table.ofList, Table.contains, Table.get?_insert]

/-- The options for large numbers, which are done, and for small ones. -/
def sizeOptions (small : String) : List DecisionOption := [
  { label := "Large", value := "large", next := some "end" },
  { label := "Small", value := "small", next := some small }]

/-- A single option. -/
def loneOption : List DecisionOption := [{ label := "Sure", value := "sure", next := some "end" }]

/-- One attempt at each route, and no enrichment. -/
def onceEach : Config := { attemptsPerPath := 1, targetHitsPerPath := 1, enrichmentTarget := 0 }

/-- An example that was meant for the route that the gate bars, and is labelled by its walk. Routes
of one signature look alike in this chart, so the label is that of the route it took. -/
theorem labels_of_mem_generateRaw_gate :
    let c := gateChart (sizeOptions "more") 12
    (c.analyze {}).truncated = false ∧ c.heedsAnswers ∧ (c.analyze {}).LooksAlike ∧
      ∃ e ∈ ((Plan.make c onceEach {}).generateRaw [2] (Mulberry32.ofSeed 42)).1.1,
        e.descriptor = "Yes / Small" ∧
        ∃ ctx, e.OwnContext c (UserConstraints.toUserState {}) ctx ∧
          ∃ r ∈ (c.analyze {}).routes, r.replays ctx ∧ e.signature = r.signature ∧
            e.descriptor = r.descriptor ∧ e.complexity = r.complexity := by
  intro c
  have hcomplete : (c.analyze {}).truncated = false := by decide +kernel
  have hheeds : c.heedsAnswers = true := by decide +kernel
  have halike : (c.analyze {}).LooksAlike :=
    Chart.looksAlike_of_isUnambiguous (by decide +kernel) {}
  have hfound : ∃ e ∈ ((Plan.make c onceEach {}).generateRaw [2] (Mulberry32.ofSeed 42)).1.1,
      e.descriptor = "Yes / Small" := by
    rw [Plan.pool_generateRaw rfl]
    decide +kernel
  obtain ⟨e, he, hdescriptor⟩ := hfound
  obtain ⟨ctx, hctx, -, hlabels⟩ :=
    labels_of_mem_generateRaw c onceEach {} [2] (Mulberry32.ofSeed 42) hcomplete he
  obtain ⟨r, hr, hreplays, hsignature, hlooks⟩ := hlabels hheeds
  exact ⟨hcomplete, hheeds, halike, e, he, hdescriptor, ctx, hctx, r, hr, hreplays, hsignature,
    hlooks halike⟩

/-- Options that share their node make routes of one signature with two descriptors, and a lone
option is taken against the answer. -/
example : ¬ ((gateChart (sizeOptions "end") 30).analyze {}).LooksAlike ∧
    (gateChart loneOption 12).heedsAnswers = false := by
  decide +kernel

/-- No enumerated route with the labels of an example replays in its own context. -/
def Example.Mislabelled (c : Chart) (userState : Scope) (e : Example) : Prop :=
  ∀ ctx, e.OwnContext c userState ctx →
    ∀ r ∈ (c.analyze {}).routes, e = .ofRoute r e.values → r.replays ctx = false

theorem Example.mislabelled_of_forall {c : Chart} {userState : Scope} {e : Example}
    (hcomputed : c.definition.computed = .empty)
    (h : ∀ r ∈ (c.analyze {}).routes, e = .ofRoute r e.values →
      r.replays { problem := e.values, userState } = false) : e.Mislabelled c userState := by
  intro ctx hctx
  rw [hctx.eq hcomputed]
  exact h

/-- **Labels may be wrong.** The number 30 is large, but where both options lead to one node it is
labelled as small; and where the only option is for larger numbers, 12 is labelled by it. -/
theorem not_labels_of_mem_generateRaw :
    (((gateChart (sizeOptions "end") 30).analyze {}).truncated = false ∧
      ∃ e ∈ ((Plan.make (gateChart (sizeOptions "end") 30) onceEach {}).generateRaw [2]
          (Mulberry32.ofSeed 42)).1.1,
        e.Mislabelled (gateChart (sizeOptions "end") 30) (UserConstraints.toUserState {})) ∧
    (((gateChart loneOption 12).analyze {}).truncated = false ∧
      ∃ e ∈ ((Plan.make (gateChart loneOption 12) onceEach {}).generateRaw [1]
          (Mulberry32.ofSeed 42)).1.1,
        e.Mislabelled (gateChart loneOption 12) (UserConstraints.toUserState {})) := by
  have hshared : ∃ e ∈ ((Plan.make (gateChart (sizeOptions "end") 30) onceEach {}).generateRaw [2]
      (Mulberry32.ofSeed 42)).1.1,
      ∀ r ∈ ((gateChart (sizeOptions "end") 30).analyze {}).routes, e = .ofRoute r e.values →
        r.replays { problem := e.values, userState := UserConstraints.toUserState {} } =
          false := by
    rw [Plan.pool_generateRaw rfl]
    decide +kernel
  have hlone : ∃ e ∈ ((Plan.make (gateChart loneOption 12) onceEach {}).generateRaw [1]
      (Mulberry32.ofSeed 42)).1.1,
      ∀ r ∈ ((gateChart loneOption 12).analyze {}).routes, e = .ofRoute r e.values →
        r.replays { problem := e.values, userState := UserConstraints.toUserState {} } =
          false := by
    rw [Plan.pool_generateRaw rfl]
    decide +kernel
  obtain ⟨e, he, hnone⟩ := hshared
  obtain ⟨e', he', hnone'⟩ := hlone
  exact ⟨⟨by decide +kernel, e, he, Example.mislabelled_of_forall rfl hnone⟩,
    by decide +kernel, e', he', Example.mislabelled_of_forall rfl hnone'⟩

end ProcedureChart
