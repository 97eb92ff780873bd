import ProcedureChart.Proofs.Enumeration
import ProcedureChart.Proofs.Options
import ProcedureChart.Proofs.Walk

/-!
# Replayed routes are walked

The constraints of a route are conditions on formulas; the walk evaluates these formulas at its
nodes, and where a decision has no answer it follows the hint. The constraints of a branch, and a
hint that goes on to its target, are enough for the walk to take it (`successor?_of_branch`), as
long as the answer of a decision tells its options apart. So the route of an enumeration whose
constraints hold in a context is walked there, if it is given as the hint (`walk_of_replays`).
-/

namespace ProcedureChart

/-- Whether the answer of a decision, if it is asked for, tells the options apart: they have values
of their own, and where only a truth value selects there are no more than two. -/
def Decision.isSettled (d : Decision) : Bool :=
  d.excludeFromExampleStructure ||
    d.correctAnswer.all fun answer =>
      decide (d.options.map DecisionOption.value).Nodup &&
        (answer.mode == .value || d.options.length ≤ 2)

/-- Whether all decisions of a chart are settled. -/
def Chart.isSettled (c : Chart) : Bool :=
  c.definition.nodes.values.all fun node =>
    match node with
    | .decision d => d.isSettled
    | _ => true

namespace Chart

variable {c : Chart} {ctx : Context} {hint : Option (List String)}

theorem isSettled_of_node? {id : String} {d : Decision} (h : c.isSettled)
    (hnode : c.node? id = some (.decision d)) : d.isSettled :=
  List.all_eq_true.1 h _ (List.mem_map_of_mem (Table.mem_of_find?_eq_some hnode))

/-! ### Options -/

/-- The option of a branch is chosen where the conditions of the branch hold, or another one that
leads to the same node. -/
theorem exists_chosenOption? {id : String} {d : Decision} {index : Nat} {o : DecisionOption}
    {target : String} {route : List String} (hsettled : d.isSettled)
    (hexcluded : d.excludeFromExampleStructure = false) (ho : d.options[index]? = some o)
    (htarget : c.optionTarget? id index o = some target)
    (hanswer : ∀ k ∈ (Branch.choosing id d index o target).constraints, k.satisfied ctx)
    (hroute : following? route id = some target) :
    ∃ o' index', c.chosenOption? id d ctx (some route) = some index' ∧
      d.options[index']? = some o' ∧ c.optionTarget? id index' o' = some target := by
  rw [chosenOption?, if_neg (by rw [hexcluded]; decide)]
  cases hcorrect : d.correctAnswer with
  | none =>
    -- the hint decides
    obtain ⟨o', index', hfound, ho', htarget'⟩ := exists_optionTo? ho htarget
    exact ⟨o', index', by simp [hintedOption?, hroute, hfound], ho', htarget'⟩
  | some answer =>
    rw [Decision.isSettled, hexcluded, hcorrect, Bool.false_or, Option.all_some,
      Bool.and_eq_true, decide_eq_true_iff, Bool.or_eq_true, beq_iff_eq, decide_eq_true_iff]
      at hsettled
    obtain ⟨v, hv, hadmits⟩ := RouteConstraint.satisfied_iff.1
      (hanswer (Branch.answerConstraint id answer index o) (by simp [Branch.choosing, hcorrect]))
    have hv : answer.formula.eval ctx = .ok v := hv
    refine ⟨o, index, ?_, ho, htarget⟩
    simp only [hv]
    exact select?_of_admits hsettled.1 hsettled.2 ho hadmits

/-! ### Branches -/

/-- An excluded decision has the branch of its first option only. -/
theorem mem_optionBranches_excluded {id : String} {d : Decision} {b : Branch}
    (hexcluded : d.excludeFromExampleStructure = true) (h : b ∈ c.optionBranches id d) :
    ∃ o, d.options[0]? = some o ∧ c.optionTarget? id 0 o = some b.target ∧
      b.constraints = Branch.notSkipping id d.skip? := by
  rw [optionBranches, if_pos hexcluded, List.head?_eq_getElem?] at h
  split at h
  · cases h
  · next o ho =>
    obtain ⟨target, htarget, rfl⟩ := Option.map_eq_some_iff.1 (Option.mem_toList.1 h)
    exact ⟨o, ho, htarget, rfl⟩

/-- Any other decision has a branch for each option that leads somewhere. -/
theorem mem_optionBranches {id : String} {d : Decision} {b : Branch}
    (hexcluded : d.excludeFromExampleStructure = false) (h : b ∈ c.optionBranches id d) :
    ∃ index o, d.options[index]? = some o ∧ c.optionTarget? id index o = some b.target ∧
      b = Branch.choosing id d index o b.target := by
  rw [optionBranches, if_neg (by rw [hexcluded]; decide)] at h
  obtain ⟨⟨o, index⟩, ho, hb⟩ := List.mem_filterMap.1 h
  obtain ⟨target, htarget, rfl⟩ := Option.map_eq_some_iff.1 hb
  exact ⟨index, o, List.mem_zipIdx_iff_getElem?.1 ho, htarget, rfl⟩

/-- A decision follows the branch of an option where the conditions of the branch hold. Another
option may be chosen, but then it leads to the same node, because the route says which one. -/
theorem decisionSuccessor?_of_optionBranch {id : String} {d : Decision} {b : Branch}
    {route : List String} (hsettled : d.isSettled) (hb : b ∈ c.optionBranches id d)
    (hsatisfied : ∀ k ∈ b.constraints, k.satisfied ctx)
    (hroute : following? route id = some b.target) :
    c.decisionSuccessor? id d ctx (some route) = some b.target := by
  cases hexcluded : d.excludeFromExampleStructure with
  | true =>
    obtain ⟨o, ho, htarget, hconstraints⟩ := mem_optionBranches_excluded hexcluded hb
    rw [hconstraints] at hsatisfied
    have hstays := (taken?_eq_some_none_iff id).2 hsatisfied
    simp only [decisionSuccessor?, hstays, chosenOption?, hexcluded, if_true, Option.bind_eq_bind,
      Option.bind_some, ho, htarget]
  | false =>
    obtain ⟨index, o, ho, htarget, hchoosing⟩ := mem_optionBranches hexcluded hb
    rw [hchoosing] at hsatisfied
    obtain ⟨o', index', hchosen, ho', htarget'⟩ :=
      exists_chosenOption? hsettled hexcluded ho htarget hsatisfied hroute
    have hstays := (taken?_eq_some_none_iff id).2 fun k hk =>
      hsatisfied k (List.mem_append_left _ hk)
    simp only [decisionSuccessor?, hstays, hchosen, Option.bind_eq_bind, Option.bind_some, ho',
      htarget']

/-- **A branch is taken** where its conditions hold and the hint goes on to its target. At a
decision with an answer the conditions leave one option, and at one without an answer it is the hint
that chooses the option. -/
theorem successor?_of_branch {id : String} {node : Node} {b : Branch} {route : List String}
    (hsettled : ∀ d, node = .decision d → d.isSettled) (hb : b ∈ c.branches id node)
    (hsatisfied : ∀ k ∈ b.constraints, k.satisfied ctx)
    (hroute : following? route id = some b.target) :
    c.successor? id node ctx (some route) = some b.target := by
  cases node with
  | terminal t => cases hb
  | instruction n | milestone n | embellishment n =>
    obtain ⟨target, htarget, rfl⟩ := Option.map_eq_some_iff.1 (Option.mem_toList.1 hb)
    exact htarget
  | checkpoint n =>
    rw [successor?, checkpointSuccessor?]
    rcases List.mem_append.1 hb with hb | hb
    · rw [(taken?_eq_some_some_iff id).2 ⟨b, hb, rfl, hsatisfied⟩]
    · obtain ⟨target, htarget, rfl⟩ := Option.map_eq_some_iff.1 (Option.mem_toList.1 hb)
      rw [(taken?_eq_some_none_iff id).2 hsatisfied]
      exact htarget
  | decision d =>
    rw [successor?]
    rcases List.mem_append.1 hb with hb | hb
    · rw [decisionSuccessor?, (taken?_eq_some_some_iff id).2 ⟨b, hb, rfl, hsatisfied⟩]
    · exact decisionSuccessor?_of_optionBranch (hsettled d rfl) hb hsatisfied hroute

/-! ### Listed routes -/

/-- A listed route ends at a terminal or goes on through a branch. In either case the node had not
been visited before. -/
theorem mem_listing_cases {r p : Route} {id : String} (h : p ∈ c.listing r id) :
    r.nodeIds.contains id = false ∧
      ((∃ t, c.node? id = some (.terminal t) ∧ p = r.visit id) ∨
        ∃ node b, c.node? id = some node ∧ b ∈ c.branches id node ∧
          p ∈ c.listing ((r.visit id).follow b) b.target) := by
  by_cases hnew : r.nodeIds.contains id = true
  · rw [listing_of_mem hnew] at h
    cases h
  refine ⟨Bool.eq_false_iff.2 hnew, ?_⟩
  cases hnode : c.node? id with
  | none =>
    rw [listing_of_undefined hnode] at h
    cases h
  | some node =>
    by_cases hkind : node.kind = .terminal
    · cases node with
      | terminal t =>
        rw [listing_terminal hnew hnode] at h
        exact .inl ⟨t, rfl, List.mem_singleton.1 h⟩
      | instruction | decision | checkpoint | milestone | embellishment => cases hkind
    · rw [listing_branches hnew hnode hkind] at h
      obtain ⟨b, hb, hp⟩ := List.mem_flatMap.1 h
      exact .inr ⟨node, b, rfl, hb, hp⟩

/-- A route is listed with the nodes and the constraints it began with. -/
theorem prefix_of_mem_listing {r p : Route} {id : String} (h : p ∈ c.listing r id) :
    r.nodeIds ++ [id] <+: p.nodeIds ∧ r.constraints <+: p.constraints := by
  induction hunseen : c.unseen r.nodeIds using Nat.strongRecOn generalizing r id with
  | ind n ih =>
    obtain ⟨hnew, ⟨t, hnode, rfl⟩ | ⟨node, b, hnode, hb, hp⟩⟩ := mem_listing_cases h
    · exact ⟨List.prefix_refl _, List.prefix_refl _⟩
    · have hless : c.unseen (r.nodeIds ++ [id]) < n :=
        hunseen ▸ unseen_append_lt (Bool.eq_false_iff.1 hnew) hnode
      obtain ⟨hnodes, hconstraints⟩ := ih _ hless hp rfl
      exact ⟨(List.prefix_append _ _).trans hnodes, (List.prefix_append _ _).trans hconstraints⟩

/-- The rest of a listed route is walked if its constraints hold. By induction on the steps left,
with the nodes seen so far being those of the route, in another order. -/
theorem walkFrom_of_mem_listing {r p : Route} {id : String} {steps : Nat} (seen : List String)
    (hsettled : c.isSettled) (hp : p ∈ c.listing r id) (hreplays : p.replays ctx)
    (hseen : ∀ other, seen.contains other = r.nodeIds.contains other)
    (hsteps : c.unseen r.nodeIds ≤ steps) :
    ∃ route, p.nodeIds = r.nodeIds ++ route ∧
      c.walkFrom ctx (some p.nodeIds) steps seen id = some route := by
  induction steps generalizing r id seen with
  | zero =>
    -- there is at least the node the route comes to
    obtain ⟨hnew, ⟨t, hnode, -⟩ | ⟨node, b, hnode, -, -⟩⟩ := mem_listing_cases hp
    all_goals
      have hless := unseen_append_lt (Bool.eq_false_iff.1 hnew) hnode
      omega
  | succ steps ih =>
    obtain ⟨hnew, ⟨t, hnode, rfl⟩ | ⟨node, b, hnode, hb, hp⟩⟩ := mem_listing_cases hp
    · exact ⟨[id], rfl, walkFrom_terminal ((hseen id).trans hnew) hnode⟩
    · have hless := unseen_append_lt (Bool.eq_false_iff.1 hnew) hnode
      obtain ⟨hnodes, hconstraints⟩ := prefix_of_mem_listing hp
      obtain ⟨rest, hrest, hwalk⟩ := ih (id :: seen) hp
        (fun other => by
          rw [List.contains_cons, hseen, Route.nodeIds_follow, Route.nodeIds_visit,
            List.contains_append, List.contains_cons, List.contains_nil, Bool.or_false,
            Bool.or_comm])
        (Nat.le_of_lt_succ (Nat.lt_of_lt_of_le hless hsteps))
      obtain ⟨tail, htail⟩ := hnodes
      have hsatisfied : ∀ k ∈ b.constraints, k.satisfied ctx := fun k hk =>
        List.all_eq_true.1 hreplays k (hconstraints.subset (List.mem_append_right _ hk))
      have hroute : following? p.nodeIds id = some b.target := by
        have hid : id ∉ r.nodeIds := by simpa using hnew
        have hp : p.nodeIds = r.nodeIds ++ id :: b.target :: tail := by simp [← htail]
        rw [hp, following?_append tail hid]
      have hnext := successor?_of_branch
        (fun d hd => isSettled_of_node? hsettled (hd ▸ hnode)) hb hsatisfied hroute
      refine ⟨id :: rest, by simpa using hrest, ?_⟩
      rw [walkFrom_move ((hseen id).trans hnew) hnode hnext, hwalk]
      rfl

/-- No more nodes are unseen than there are. -/
theorem unseen_le_size (c : Chart) (seen : List String) : c.unseen seen ≤ c.definition.nodes.size :=
  Nat.le_trans List.countP_le_length (Nat.le_of_eq (List.length_map _))

end Chart

/-- **Replaying confirms the route**: in a chart whose decisions are settled, an enumerated route
whose constraints hold in a context is the walk there, if the route is the hint. -/
theorem walk_of_replays {c : Chart} (hsettled : c.isSettled) (limits : Limits) {p : Route}
    (hp : p ∈ (c.enumerate limits).routes) (ctx : Context) (hreplays : p.replays ctx) :
    c.walk ctx (some p.nodeIds) = some p.nodeIds := by
  have hlisted := Chart.mem_listing_of_mem_enumerate hp
  obtain ⟨route, hroute, hwalk⟩ := Chart.walkFrom_of_mem_listing [] hsettled hlisted hreplays
    (fun _ => rfl) (c.unseen_le_size [])
  rw [Chart.walk, hwalk, hroute]
  rfl

/-- A chart with a decision that is answered and one that is left to the learner, behind a
checkpoint that may be skipped. -/
def sizeChart : Chart where
  definition := {
    id := "size"
    title := "Size"
    problemInput := { schema := "size", fields := [{ name := "n" }] }
    entryNode := "large"
    nodes := .ofList [
      ("large", .decision {
        options := [
          { label := "Yes", value := "yes", next := some "digits" },
          { label := "No", value := "no", next := some "end" }]
        correctAnswer := some ⟨.boolean, .ofSource "n > 9"⟩ }),
      ("digits", .checkpoint {
        prompt := "How many digits?", expected := .single (.ofSource "2"), next := some "how"
        skipIf := some (.ofSource "n > 99"), skipTo := some "end" }),
      ("how", .decision {
        options := [
          { label := "In writing", value := "written", next := some "end" },
          { label := "Mentally", value := "mental", next := some "check" }] }),
      ("check", .instruction { next := some "end" }),
      ("end", .terminal {})] }
  diagram := {}
  entry_defined := by decide

/-- The route that answers, passes the checkpoint and chooses the second option. -/
theorem walk_of_replays_size :
    sizeChart.isSettled ∧ ∃ p ∈ (sizeChart.enumerate {}).routes,
      p.replays { problem := .ofList [("n", .number 12)] } ∧
      p.nodeIds = ["large", "digits", "how", "check", "end"] ∧
      sizeChart.walk { problem := .ofList [("n", .number 12)] } (some p.nodeIds) =
        some p.nodeIds := by
  have hsettled : sizeChart.isSettled = true := by decide +kernel
  have hfound : ∃ p ∈ (sizeChart.enumerate {}).routes,
      p.replays { problem := .ofList [("n", .number 12)] } ∧
      p.nodeIds = ["large", "digits", "how", "check", "end"] := by decide +kernel
  obtain ⟨p, hp, hreplays, hnodes⟩ := hfound
  exact ⟨hsettled, p, hp, hreplays, hnodes, walk_of_replays hsettled {} hp _ hreplays⟩

end ProcedureChart
