import ProcedureChart.Generate.Attempt
import ProcedureChart.Proofs.Enumeration
import ProcedureChart.Proofs.Options
import ProcedureChart.Proofs.Targets
import ProcedureChart.Proofs.Walk

/-!
# Walked routes are listed routes

A walk and the listing find their way through a chart independently of each other: the walk asks
for the one successor of a node in a context, the listing goes through all its branches. Every
successor is the target of a branch (`exists_branch_of_successor?`), so every walk follows the
listing, and an enumeration that is complete has a route for each walk (`walk_enumerated`).
-/

namespace ProcedureChart

/-- Whether the option that is taken is one that satisfies the answer. Where a truth value selects
and there is one option only, that option is taken whether the answer is true or not. -/
def Decision.heedsAnswer (d : Decision) : Bool :=
  d.excludeFromExampleStructure ||
    d.correctAnswer.all fun answer => answer.mode == .value || d.options.length != 1

/-- Whether all decisions of a chart heed their answers. -/
def Chart.heedsAnswers (c : Chart) : Bool :=
  c.definition.nodes.values.all fun node =>
    match node with
    | .decision d => d.heedsAnswer
    | _ => true

/-- A route that follows a branch replays where it has replayed so far and the conditions of the
branch hold. -/
theorem Route.replays_follow {r : Route} {id : String} {b : Branch} {ctx : Context} :
    ((r.visit id).follow b).replays ctx ↔
      r.replays ctx ∧ ∀ k ∈ b.constraints, k.satisfied ctx := by
  simp [replays, follow, visit]

namespace Chart

variable {c : Chart} {ctx : Context} {hint : Option (List String)}

theorem heedsAnswer_of_node? {id : String} {d : Decision} (h : c.heedsAnswers)
    (hnode : c.node? id = some (.decision d)) : d.heedsAnswer :=
  List.all_eq_true.1 h _ (List.mem_map_of_mem (Table.mem_of_find?_eq_some hnode))

/-! ### Successors are branches -/

/-- An option that is chosen satisfies its answer, if the decision heeds answers. -/
theorem admits_of_select? {id : String} {d : Decision} {answer : Answer} {index : Nat}
    {o : DecisionOption} {v : Value} (h : d.select? answer.mode v = some index)
    (ho : d.options[index]? = some o)
    (hheeds : answer.mode = .value ∨ d.options.length ≠ 1) :
    (Branch.answerConstraint id answer index o).admits v := by
  refine (admits_iff_of_select? h ho).2 ?_
  obtain ⟨hindex, -⟩ := List.getElem?_eq_some_iff.1 ho
  rcases hheeds with hmode | hlone
  · exact .inl (by rw [hmode, AnswerMode.byText])
  · exact .inr (.inr (by omega))

/-- An option that a walk chooses has a branch, whose conditions hold if the decision heeds
answers. -/
theorem exists_optionBranch {id target : String} {d : Decision} {index : Nat}
    {o : DecisionOption} (hchosen : c.chosenOption? id d ctx hint = some index)
    (ho : d.options[index]? = some o) (htarget : c.optionTarget? id index o = some target)
    (hstays : ∀ k ∈ Branch.notSkipping id d.skip?, k.satisfied ctx) :
    ∃ b ∈ c.optionBranches id d, b.target = target ∧
      (d.heedsAnswer → ∀ k ∈ b.constraints, k.satisfied ctx) := by
  rw [chosenOption?] at hchosen
  by_cases hexcluded : d.excludeFromExampleStructure = true
  · -- only the first option has a branch, and it is the one that is chosen
    rw [if_pos hexcluded] at hchosen
    obtain rfl := Option.some.inj hchosen
    exact ⟨_, first_mem_optionBranches hexcluded ho htarget, rfl, fun _ => hstays⟩
  · rw [if_neg hexcluded] at hchosen
    refine ⟨_, choosing_mem_optionBranches hexcluded ho htarget, rfl, fun hheeds k hk => ?_⟩
    rcases List.mem_append.1 hk with hk | hk
    · exact hstays k hk
    · obtain ⟨answer, hanswer, rfl⟩ := Option.map_eq_some_iff.1 (Option.mem_toList.1 hk)
      simp only [hanswer] at hchosen
      split at hchosen
      · cases hchosen
      · next v hv =>
        refine RouteConstraint.satisfied_iff.2 ⟨v, hv, admits_of_select? hchosen ho ?_⟩
        simpa [Decision.heedsAnswer, hexcluded, hanswer] using hheeds

/-- Where a walk goes on to, there is a branch to, and its conditions hold if the decision heeds
answers. -/
theorem exists_branch_of_successor? {id next : String} {node : Node}
    (h : c.successor? id node ctx hint = some next) :
    ∃ b ∈ c.branches id node, b.target = next ∧
      ((∀ d, node = .decision d → d.heedsAnswer) → ∀ k ∈ b.constraints, k.satisfied ctx) := by
  cases node with
  | terminal t => cases h
  | instruction n | milestone n | embellishment n =>
    simp only [successor?] at h
    exact ⟨{ target := next }, by simp [branches, h], rfl, fun _ => List.forall_mem_nil _⟩
  | checkpoint n =>
    simp only [successor?, checkpointSuccessor?] at h
    simp only [branches, List.mem_append, or_and_right, exists_or]
    split at h
    · cases h
    · next target htaken =>
      obtain rfl := Option.some.inj h
      obtain ⟨b, hb, htarget, hholds⟩ := (taken?_eq_some_some_iff id).1 htaken
      exact .inl ⟨b, hb, htarget, fun _ => hholds⟩
    · next htaken =>
      rw [h]
      exact .inr ⟨_, List.mem_singleton_self _, rfl, fun _ => (taken?_eq_some_none_iff id).1 htaken⟩
  | decision d =>
    simp only [successor?, decisionSuccessor?] at h
    simp only [branches, List.mem_append, or_and_right, exists_or]
    split at h
    · cases h
    · next target htaken =>
      obtain rfl := Option.some.inj h
      obtain ⟨b, hb, htarget, hholds⟩ := (taken?_eq_some_some_iff id).1 htaken
      exact .inl ⟨b, hb, htarget, fun _ => hholds⟩
    · next htaken =>
      simp only [Option.bind_eq_bind, Option.bind_eq_some_iff] at h
      obtain ⟨index, hindex, o, ho, htarget⟩ := h
      obtain ⟨b, hb, htarget, hholds⟩ :=
        exists_optionBranch hindex ho htarget ((taken?_eq_some_none_iff id).1 htaken)
      exact .inr ⟨b, hb, htarget, fun hheeds => hholds (hheeds d rfl)⟩

/-! ### Walks are listed -/

/-- The rest of a walk is listed behind the route so far. If the decisions heed answers, all
conditions that the rest adds hold. -/
theorem exists_listed_of_walkFrom {steps : Nat} {seen : List String} {id : String}
    {route : List String} {r : Route} (h : c.walkFrom ctx hint steps seen id = some route)
    (hseen : ∀ other, r.nodeIds.contains other = seen.contains other) :
    ∃ p ∈ c.listing r id, p.nodeIds = r.nodeIds ++ route ∧
      (c.heedsAnswers → r.replays ctx → p.replays ctx) := by
  induction steps generalizing seen id route r with
  | zero => cases h
  | succ steps ih =>
    obtain ⟨hid, ⟨t, hnode, rfl⟩ | ⟨node, next, rest, hnode, hnext, hrest, rfl⟩⟩ :=
      walkFrom_cases h
    · have hnew : ¬ r.nodeIds.contains id = true := by
        rw [hseen, hid]
        exact Bool.false_ne_true
      rw [listing_terminal hnew hnode]
      exact ⟨_, List.mem_singleton_self _, rfl, fun _ hreplays => hreplays⟩
    · have hnew : ¬ r.nodeIds.contains id = true := by
        rw [hseen, hid]
        exact Bool.false_ne_true
      have hkind : node.kind ≠ .terminal := by
        cases node with
        | terminal t => cases hnext
        | instruction | decision | checkpoint | milestone | embellishment => exact nofun
      obtain ⟨b, hb, rfl, hholds⟩ := exists_branch_of_successor? hnext
      obtain ⟨p, hp, hids, hreplays⟩ := ih (r := (r.visit id).follow b) hrest fun other => by
        rw [Route.nodeIds_follow, Route.nodeIds_visit, List.contains_append, hseen,
          List.contains_cons, List.contains_cons, List.contains_nil, Bool.or_false, Bool.or_comm]
      rw [listing_branches hnew hnode hkind]
      refine ⟨p, List.mem_flatMap.2 ⟨b, hb, hp⟩, ?_, ?_⟩
      · rw [hids, Route.nodeIds_follow, Route.nodeIds_visit, List.append_assoc]
        rfl
      · intro hheeds hr
        refine hreplays hheeds (Route.replays_follow.2 ⟨hr, hholds fun d hd => ?_⟩)
        exact heedsAnswer_of_node? hheeds (hd ▸ hnode)

/-- Every walk is a listed route. -/
theorem exists_listed_of_walk {route : List String} (h : c.walk ctx hint = some route) :
    ∃ p ∈ c.listing {} c.entry, p.nodeIds = route := by
  obtain ⟨p, hp, hids, -⟩ := exists_listed_of_walkFrom (r := {}) h fun _ => rfl
  exact ⟨p, hp, hids⟩

/-- Where decisions heed their answers, every walk is a listed route that replays. -/
theorem exists_replaying_of_walk {route : List String} (hheeds : c.heedsAnswers)
    (h : c.walk ctx hint = some route) :
    ∃ p ∈ c.listing {} c.entry, p.nodeIds = route ∧ p.replays ctx := by
  obtain ⟨p, hp, hids, hreplays⟩ := exists_listed_of_walkFrom (r := {}) h fun _ => rfl
  exact ⟨p, hp, hids, hreplays hheeds rfl⟩

end Chart

/-! ### Complete enumerations -/

/-- Where the enumeration of a plan is complete, the signature of a walk is that of a target. -/
theorem Plan.exists_target_of_walk {c : Chart} {ctx : Context} {hint : Option (List String)}
    {route : List String} (h : c.walk ctx hint = some route) (config : Config)
    (constraints : UserConstraints)
    (hcomplete : (Plan.make c config constraints).analysis.truncated = false) :
    ∃ t ∈ (Plan.make c config constraints).targets, t.signature = signatureOf route := by
  obtain ⟨r, hr, rfl⟩ := Chart.exists_listed_of_walk h
  rw [← Chart.enumerate_of_not_truncated hcomplete] at hr
  exact ⟨_, List.mem_map_of_mem hr, rfl⟩

/-- Where the enumeration is complete, the example of a walk is labelled by a route of the signature
of the walk. -/
theorem Plan.exists_exampleOf_eq {c : Chart} {ctx : Context} {hint : Option (List String)}
    {route : List String} (config : Config) (constraints : UserConstraints) (values : Scope)
    (hcomplete : (c.analyze config.limits).truncated = false)
    (h : c.walk ctx hint = some route) :
    ∃ r ∈ (c.analyze config.limits).routes, r.signature = signatureOf route ∧
      (Plan.make c config constraints).exampleOf route values = .ofRoute r values := by
  obtain ⟨t, ht, hsignature⟩ := Plan.exists_target_of_walk h config constraints hcomplete
  obtain ⟨t', hfound⟩ := Plan.exists_targetOf?_eq_some ht
  rw [hsignature] at hfound
  obtain ⟨ht', hsignature'⟩ := Plan.signature_of_targetOf?_eq_some hfound
  obtain ⟨r, hr, rfl⟩ := List.mem_map.1 ht'
  refine ⟨r, hr, hsignature', ?_⟩
  simp only [Plan.exampleOf, hfound]
  rfl

/-- **Every walk is an enumerated route**: whatever the context and the hint, the nodes of a walk
are those of a route in every enumeration that was not truncated. A plan with such an enumeration
labels the example of a walk by one of its targets, never by the nodes of the walk alone. -/
theorem walk_enumerated (c : Chart) (ctx : Context) (hint : Option (List String))
    (route : List String) (h : c.walk ctx hint = some route) :
    (∀ limits, (c.enumerate limits).truncated = false →
      ∃ r ∈ (c.enumerate limits).routes, r.nodeIds = route) ∧
    ∀ config constraints values,
      (Plan.make c config constraints).analysis.truncated = false →
        ∃ t ∈ (Plan.make c config constraints).targets,
          (Plan.make c config constraints).targetOf? (signatureOf route) = some t ∧
          t.route.signature = signatureOf route ∧
          (Plan.make c config constraints).exampleOf route values = .ofRoute t.route values := by
  constructor
  · intro limits hcomplete
    rw [Chart.enumerate_of_not_truncated hcomplete]
    exact Chart.exists_listed_of_walk h
  · intro config constraints values hcomplete
    obtain ⟨t, ht, hsignature⟩ := Plan.exists_target_of_walk h config constraints hcomplete
    obtain ⟨t', hfound⟩ := Plan.exists_targetOf?_eq_some ht
    rw [hsignature] at hfound
    obtain ⟨hmem, hsignature'⟩ := Plan.signature_of_targetOf?_eq_some hfound
    refine ⟨t', hmem, hfound, t'.signature_eq ▸ hsignature', ?_⟩
    simp only [Plan.exampleOf, hfound]

/-- A chart with a choice, one side of which comes to a checkpoint that may be skipped and otherwise
leads back. -/
def detourChart : Chart where
  definition := {
    id := "detour"
    title := "A detour"
    problemInput := { schema := "detour", fields := [] }
    entryNode := "choose"
    nodes := .ofList [
      ("choose", .decision {
        options := [
          { label := "straight", value := "s", next := some "end" },
          { label := "round", value := "r", next := some "check" }] }),
      ("check", .checkpoint {
        prompt := "n?", expected := .single (.ofSource "n"), next := some "choose"
        skipIf := some (.ofSource "n > 1"), skipTo := some "end" }),
      ("end", .terminal {})] }
  diagram := {}
  entry_defined := by decide

/-- The walk that chooses the detour and skips its checkpoint. -/
theorem walk_enumerated_detour :
    detourChart.walk { problem := .ofList [("n", .number 2)] } (some ["choose", "check"]) =
        some ["choose", "check", "end"] ∧
      (detourChart.enumerate {}).truncated = false ∧
      ∃ r ∈ (detourChart.enumerate {}).routes, r.nodeIds = ["choose", "check", "end"] := by
  have hwalk : detourChart.walk { problem := .ofList [("n", .number 2)] }
      (some ["choose", "check"]) = some ["choose", "check", "end"] := by decide +kernel
  have hcomplete : (detourChart.enumerate {}).truncated = false := by decide +kernel
  exact ⟨hwalk, hcomplete, (walk_enumerated detourChart _ _ _ hwalk).1 {} hcomplete⟩

end ProcedureChart
