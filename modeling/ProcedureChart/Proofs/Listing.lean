import ProcedureChart.Route.Enumerate

/-!
# Listing routes by recursion

The routes of a chart as a plain depth-first recursion, without a stack and without bounds. A node
that is on the route already, or that is not defined, gives no route; a terminal gives the route
that ends there; any other node gives the routes of its ways on, one after the other. What each way
on adds to a route is said here kind by kind, so that the listing can be read by itself;
`listing_eq_branches` relates it to the branches that the search works with.

The recursion ends because each step puts one more defined node on the route.
-/

namespace ProcedureChart

namespace Route

/-- A route with the condition that the skip at a node applies, or does not. -/
def withSkip (r : Route) (id : String) (skip : Skip) (applies : Bool) : Route :=
  { r with constraints := r.constraints ++ [⟨id, skip.condition, applies, none, .boolean⟩] }

/-- A route that stays at a node although there may be a skip. -/
def stay (r : Route) (id : String) : Option Skip → Route
  | none => r
  | some skip => r.withSkip id skip false

/-- A route with the condition that the answer to a decision, if it has one, selects an option. -/
def withAnswer (r : Route) (id : String) (index : Nat) (o : DecisionOption) :
    Option Answer → Route
  | none => r
  | some answer =>
    { r with constraints := r.constraints ++
        [⟨id, answer.formula, index == 0, some o.value, answer.mode⟩] }

/-- A route that takes an option of a decision. -/
def choose (r : Route) (id : String) (d : Decision) (index : Nat) (o : DecisionOption) : Route :=
  let r := (r.stay id d.skip?).withAnswer id index o d.correctAnswer
  { r with
    decisions := r.decisions ++ [⟨id, index, o.value, o.shortLabel⟩]
    decisionCount := r.decisionCount + 1
    decisionCount_eq := by rw [r.decisionCount_eq, List.length_append, List.length_singleton] }

/-- A route that passes a checkpoint. -/
def pass (r : Route) (id : String) (n : Checkpoint) : Route :=
  let r := r.stay id n.openSkip?
  { r with checkpointCount := r.checkpointCount + 1 }

@[simp] theorem nodeIds_visit (r : Route) (id : String) :
    (r.visit id).nodeIds = r.nodeIds ++ [id] := rfl

@[simp] theorem nodeIds_withSkip (r : Route) (id : String) (skip : Skip) (applies : Bool) :
    (r.withSkip id skip applies).nodeIds = r.nodeIds := rfl

@[simp] theorem nodeIds_stay (r : Route) (id : String) (skip : Option Skip) :
    (r.stay id skip).nodeIds = r.nodeIds := by
  cases skip <;> rfl

@[simp] theorem nodeIds_withAnswer (r : Route) (id : String) (index : Nat) (o : DecisionOption)
    (answer : Option Answer) : (r.withAnswer id index o answer).nodeIds = r.nodeIds := by
  cases answer <;> rfl

@[simp] theorem nodeIds_choose (r : Route) (id : String) (d : Decision) (index : Nat)
    (o : DecisionOption) : (r.choose id d index o).nodeIds = r.nodeIds := by
  simp [choose]

@[simp] theorem nodeIds_pass (r : Route) (id : String) (n : Checkpoint) :
    (r.pass id n).nodeIds = r.nodeIds := by
  simp [pass]

@[simp] theorem nodeIds_follow (r : Route) (b : Branch) : (r.follow b).nodeIds = r.nodeIds := rfl

end Route

namespace Chart

/-! ### The recursion -/

/-- How many defined nodes have not been seen yet. -/
def unseen (c : Chart) (seen : List String) : Nat :=
  c.definition.nodes.keys.countP fun id => !seen.contains id

/-- Seeing a defined node leaves fewer of them. That is why a listing ends, also where the chart has
cycles. -/
theorem unseen_append_lt {c : Chart} {seen : List String} {id : String} {node : Node}
    (hnew : ¬ seen.contains id = true) (hnode : c.node? id = some node) :
    c.unseen (seen ++ [id]) < c.unseen seen := by
  obtain ⟨before, after, hkeys⟩ :=
    List.append_of_mem (Table.mem_keys_of_get?_eq_some hnode)
  have hle : ∀ l : List String, (l.countP fun other => !(seen ++ [id]).contains other) ≤
      l.countP fun other => !seen.contains other := by
    intro l
    refine List.countP_mono_left fun other _ h => ?_
    simp only [List.contains_append, Bool.not_or, Bool.and_eq_true] at h
    exact h.1
  have hbefore := hle before
  have hafter := hle after
  have hold : seen.contains id = false := Bool.eq_false_iff.2 hnew
  have hid : (seen ++ [id]).contains id = true := by simp
  rw [unseen, unseen, hkeys, List.countP_append, List.countP_append, List.countP_cons,
    List.countP_cons, hold, hid]
  simp only [Bool.not_true, Bool.not_false, Bool.false_eq_true, if_true, if_false]
  omega

/-- The routes that begin with `r` and visit the node `id` next, in depth-first order. -/
def listing (c : Chart) (r : Route) (id : String) : List Route :=
  if _hnew : r.nodeIds.contains id then []
  else
    match _hnode : c.node? id with
    | none => []
    | some (.terminal _) => [r.visit id]
    | some (.decision d) =>
      (match d.skip? with
        | none => []
        | some skip => listing c ((r.visit id).withSkip id skip true) skip.target)
      ++
      if d.excludeFromExampleStructure then
        match d.options with
        | [] => []
        | o :: _ =>
          match c.optionTarget? id 0 o with
          | none => []
          | some target => listing c ((r.visit id).stay id d.skip?) target
      else
        d.options.zipIdx.flatMap fun (o, index) =>
          match c.optionTarget? id index o with
          | none => []
          | some target => listing c ((r.visit id).choose id d index o) target
    | some (.checkpoint n) =>
      (match n.openSkip? with
        | none => []
        | some skip => listing c ((r.visit id).withSkip id skip true) skip.target)
      ++
      match c.nextOf? id with
      | none => []
      | some target => listing c ((r.visit id).pass id n) target
    | some (.instruction _) | some (.milestone _) | some (.embellishment _) =>
      match c.nextOf? id with
      | none => []
      | some target => listing c (r.visit id) target
termination_by c.unseen r.nodeIds
decreasing_by
  all_goals
    simp only [Route.nodeIds_withSkip, Route.nodeIds_stay, Route.nodeIds_choose,
      Route.nodeIds_pass, Route.nodeIds_visit]
    exact unseen_append_lt _hnew _hnode

/-! ### The listing and the branches -/

end Chart

namespace Branch

@[simp] theorem target_skipping (id : String) (skip : Skip) :
    (skipping id skip).target = skip.target := rfl

@[simp] theorem target_choosing (id : String) (d : Decision) (index : Nat) (o : DecisionOption)
    (target : String) : (choosing id d index o target).target = target := rfl

end Branch

namespace Route

theorem follow_skipping (r : Route) (id : String) (skip : Skip) :
    r.follow (Branch.skipping id skip) = r.withSkip id skip true := by
  simp [follow, Branch.skipping, Branch.skipConstraint, withSkip]

theorem follow_staying (r : Route) (id target : String) (skip : Option Skip) :
    r.follow { target, constraints := Branch.notSkipping id skip } = r.stay id skip := by
  cases skip <;> simp [follow, Branch.notSkipping, Branch.skipConstraint, stay, withSkip]

theorem follow_choosing (r : Route) (id : String) (d : Decision) (index : Nat)
    (o : DecisionOption) (target : String) :
    r.follow (Branch.choosing id d index o target) = r.choose id d index o := by
  cases hskip : d.skip? <;> cases hanswer : d.correctAnswer <;>
    simp [follow, Branch.choosing, Branch.notSkipping, Branch.skipConstraint,
      Branch.answerConstraint, choose, stay, withSkip, withAnswer, hskip, hanswer]

theorem follow_passing (r : Route) (id target : String) (n : Checkpoint) :
    r.follow { target, constraints := Branch.notSkipping id n.openSkip?, checkpoint := true } =
      r.pass id n := by
  cases hskip : n.openSkip? <;>
    simp [follow, Branch.notSkipping, Branch.skipConstraint, pass, stay, withSkip, hskip]

theorem follow_onward (r : Route) (target : String) : r.follow { target } = r := by
  simp [follow]

end Route

namespace Chart

/-- A node that is on the route already gives no route. -/
theorem listing_of_mem {c : Chart} {r : Route} {id : String} (h : r.nodeIds.contains id = true) :
    c.listing r id = [] := by
  rw [listing, dif_pos h]

/-- An undefined node gives no route. -/
theorem listing_of_undefined {c : Chart} {r : Route} {id : String} (h : c.node? id = none) :
    c.listing r id = [] := by
  by_cases hold : r.nodeIds.contains id = true
  · exact listing_of_mem hold
  · rw [listing, dif_neg hold]
    split <;> first | rfl | (rename_i hnode; rw [h] at hnode; cases hnode)

/-- At a terminal the route is complete. -/
theorem listing_terminal {c : Chart} {r : Route} {id : String} {n : Terminal}
    (hnew : ¬ r.nodeIds.contains id = true) (h : c.node? id = some (.terminal n)) :
    c.listing r id = [r.visit id] := by
  rw [listing, dif_neg hnew]
  split <;> rename_i hnode <;> rw [h] at hnode <;> cases hnode

/-- Going through the branch of a skip, if there is one. -/
theorem flatMap_skipping {α : Type} (r : Route) (id : String) (skip : Option Skip)
    (f : Route → String → List α) :
    ((skip.map (Branch.skipping id)).toList.flatMap fun b => f (r.follow b) b.target) =
      match skip with
      | none => []
      | some skip => f (r.withSkip id skip true) skip.target := by
  cases skip with
  | none => rfl
  | some skip => simp [Route.follow_skipping]

/-- Going through the branches of the options of a decision. They are one branch for each option
that leads somewhere, or the single one behind a decision that is left out of the structure. -/
theorem flatMap_optionBranches {α : Type} (c : Chart) (r : Route) (id : String) (d : Decision)
    (f : Route → String → List α) :
    ((c.optionBranches id d).flatMap fun b => f (r.follow b) b.target) =
      if d.excludeFromExampleStructure then
        match d.options with
        | [] => []
        | o :: _ =>
          match c.optionTarget? id 0 o with
          | none => []
          | some target => f (r.stay id d.skip?) target
      else
        d.options.zipIdx.flatMap fun (o, index) =>
          match c.optionTarget? id index o with
          | none => []
          | some target => f (r.choose id d index o) target := by
  rw [optionBranches]
  split
  · -- only the first option counts
    cases hoptions : d.options with
    | nil => rfl
    | cons o rest =>
      cases htarget : c.optionTarget? id 0 o with
      | none => simp [htarget]
      | some target => simp [htarget, Route.follow_staying]
  · induction d.options.zipIdx with
    | nil => rfl
    | cons entry rest ih =>
      obtain ⟨o, index⟩ := entry
      rw [List.filterMap_cons, List.flatMap_cons, ← ih]
      cases htarget : c.optionTarget? id index o with
      | none => simp only [htarget, Option.map_none, List.nil_append]
      | some target =>
        simp only [htarget, Option.map_some, List.flatMap_cons, Route.follow_choosing,
          Branch.target_choosing]

/-- At any other node the listing goes through the branches. The listing treats each kind of node by
itself; as branches they are all alike. -/
theorem listing_branches {c : Chart} {r : Route} {id : String} {node : Node}
    (hnew : ¬ r.nodeIds.contains id = true) (h : c.node? id = some node)
    (hkind : node.kind ≠ .terminal) :
    c.listing r id =
      (c.branches id node).flatMap fun b => c.listing ((r.visit id).follow b) b.target := by
  rw [listing, dif_neg hnew]
  cases node with
  | terminal n => exact absurd rfl hkind
  | decision d =>
    split <;> rename_i hnode <;> rw [h] at hnode <;> cases hnode
    rw [branches, List.flatMap_append, flatMap_optionBranches, flatMap_skipping]
  | checkpoint n =>
    split <;> rename_i hnode <;> rw [h] at hnode <;> cases hnode
    rw [branches, List.flatMap_append, flatMap_skipping]
    cases hnext : c.nextOf? id with
    | none => rfl
    | some target => simp [Route.follow_passing]
  | instruction n | milestone n | embellishment n =>
    split <;> rename_i hnode <;> rw [h] at hnode <;> cases hnode
    rw [branches]
    cases hnext : c.nextOf? id with
    | none => rfl
    | some target => simp [Route.follow_onward]

end Chart

end ProcedureChart
