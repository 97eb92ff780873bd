import Mathlib.Data.List.Chain
import ProcedureChart.Proofs.Descriptions
import ProcedureChart.Proofs.WellFormed

/-!
# Terminals that can be reached

Routes visit no node twice, so the enumeration drops every way back to where a route has been. No
terminal is lost by that: whatever sequence of branch steps comes to a terminal, the loops in it can
be cut out (`exists_nodup_isChain`), and what is left is a route that is listed
(`exists_listed_of_isChain`). So an enumeration that was not ended by a bound ends at exactly the
terminals that can be reached, and it is empty only if there are none (`routes_ne_nil_iff`).
-/

namespace ProcedureChart

/-! ### Cutting out loops -/

/-- Steps that come from one place to another can be made without coming to any place twice. -/
theorem exists_nodup_isChain {α : Type} {r : α → α → Prop} {a b : α}
    (h : Relation.ReflTransGen r a b) :
    ∃ tail, (a :: tail).IsChain r ∧ (a :: tail).getLast? = some b ∧ (a :: tail).Nodup := by
  induction h using Relation.ReflTransGen.head_induction_on with
  | refl => exact ⟨[], .singleton b, rfl, List.nodup_singleton b⟩
  | @head a next hstep _ ih =>
    obtain ⟨tail, hsteps, hlast, hnodup⟩ := ih
    by_cases hmem : a ∈ next :: tail
    · -- the steps come back to `a`, and those in front of this are left out
      obtain ⟨before, behind, heq⟩ := List.append_of_mem hmem
      rw [heq] at hsteps hlast hnodup
      refine ⟨behind, hsteps.right_of_append, ?_, (List.nodup_append.1 hnodup).2.1⟩
      rwa [List.getLast?_append_cons] at hlast
    · exact ⟨next :: tail, .cons_cons hstep hsteps, hlast, List.nodup_cons.2 ⟨hmem, hnodup⟩⟩

namespace Chart

variable {c : Chart} {id next : String}

/-! ### Branch steps -/

/-- The steps that a route may make. A decision has its skip and its options, or the first option
only if it is excluded from the structure of examples; a checkpoint has its skip, unless routes may
not take it; and every node but decisions and terminals has its successor. -/
inductive BranchStep (c : Chart) (id : String) : String → Prop
  | skip {d : Decision} {skip : Skip} : c.node? id = some (.decision d) →
      d.skip? = some skip → BranchStep c id skip.target
  | option {d : Decision} (index : Nat) {o : DecisionOption} {target : String} :
      c.node? id = some (.decision d) → (d.excludeFromExampleStructure → index = 0) →
      d.options[index]? = some o → c.optionTarget? id index o = some target →
      BranchStep c id target
  | leap {n : Checkpoint} {skip : Skip} : c.node? id = some (.checkpoint n) →
      ¬ n.excludeSkipFromPaths → n.skip? = some skip → BranchStep c id skip.target
  | onward {node : Node} {target : String} : c.node? id = some node → node.kind ≠ .decision →
      node.kind ≠ .terminal → c.nextOf? id = some target → BranchStep c id target

/-- Every branch step follows a branch. The steps are read off the definition, kind by kind, and the
branches are what the search goes through. -/
theorem BranchStep.exists_branch (h : c.BranchStep id next) :
    ∃ node b, c.node? id = some node ∧ b ∈ c.branches id node ∧ b.target = next := by
  cases h with
  | @skip d skip hnode hskip =>
    refine ⟨_, Branch.skipping id skip, hnode, List.mem_append_left _ ?_, rfl⟩
    rw [hskip]
    exact List.mem_singleton_self _
  | @option d index o _ hnode hexcluded ho htarget =>
    by_cases hfirst : d.excludeFromExampleStructure = true
    · obtain rfl := hexcluded hfirst
      exact ⟨_, _, hnode, List.mem_append_right _ (first_mem_optionBranches hfirst ho htarget), rfl⟩
    · exact ⟨_, _, hnode, List.mem_append_right _ (choosing_mem_optionBranches hfirst ho htarget),
        rfl⟩
  | @leap n skip hnode hopen hskip =>
    refine ⟨_, Branch.skipping id skip, hnode, List.mem_append_left _ ?_, rfl⟩
    rw [Checkpoint.openSkip?, if_neg hopen, hskip]
    exact List.mem_singleton_self _
  | @onward node _ hnode hdecision hterminal hnext =>
    cases node with
    | terminal t => exact absurd rfl hterminal
    | decision d => exact absurd rfl hdecision
    | checkpoint n =>
      let passing : Branch :=
        { target := next, constraints := Branch.notSkipping id n.openSkip?, checkpoint := true }
      refine ⟨_, passing, hnode, List.mem_append_right _ ?_, rfl⟩
      rw [hnext]
      exact List.mem_singleton_self _
    | instruction n | milestone n | embellishment n =>
      refine ⟨_, { target := next }, hnode, ?_, rfl⟩
      simp only [branches, hnext, Option.map_some, Option.toList_some, List.mem_singleton]

/-- Every branch is a step. Of a decision that is left out of the structure only the first option
has a branch. -/
theorem branchStep_of_mem_branches {node : Node} {b : Branch} (hnode : c.node? id = some node)
    (hb : b ∈ c.branches id node) : c.BranchStep id b.target := by
  cases node with
  | terminal t => cases hb
  | instruction n | milestone n | embellishment n =>
    obtain ⟨target, htarget, rfl⟩ := Option.map_eq_some_iff.1 (Option.mem_toList.1 hb)
    exact .onward hnode (by rintro ⟨⟩) (by rintro ⟨⟩) htarget
  | checkpoint n =>
    rcases List.mem_append.1 hb with hb | hb
    · obtain ⟨skip, hskip, rfl⟩ := Option.map_eq_some_iff.1 (Option.mem_toList.1 hb)
      rw [Checkpoint.openSkip?] at hskip
      split at hskip
      · cases hskip
      · next hopen => exact .leap hnode hopen hskip
    · obtain ⟨target, htarget, rfl⟩ := Option.map_eq_some_iff.1 (Option.mem_toList.1 hb)
      exact .onward hnode (by rintro ⟨⟩) (by rintro ⟨⟩) htarget
  | decision d =>
    rcases List.mem_append.1 hb with hb | hb
    · obtain ⟨skip, hskip, rfl⟩ := Option.map_eq_some_iff.1 (Option.mem_toList.1 hb)
      exact .skip hnode hskip
    · cases hexcluded : d.excludeFromExampleStructure with
      | true =>
        obtain ⟨o, ho, htarget, -⟩ := mem_optionBranches_excluded hexcluded hb
        exact .option 0 hnode (fun _ => rfl) ho htarget
      | false =>
        obtain ⟨index, o, ho, htarget, -⟩ := mem_optionBranches hexcluded hb
        have hincluded : ¬ d.excludeFromExampleStructure := by simp [hexcluded]
        exact .option index hnode (fun h => absurd h hincluded) ho htarget

/-! ### Steps and listed routes -/

/-- Steps to a terminal that come to no node twice, and to none of a route, are the rest of a listed
route. -/
theorem exists_listed_of_isChain {r : Route} {id last : String} {tail : List String}
    (hsteps : (id :: tail).IsChain c.BranchStep) (hlast : (id :: tail).getLast? = some last)
    (hterminal : c.IsTerminal last) (hnodup : (r.nodeIds ++ id :: tail).Nodup) :
    ∃ p ∈ c.listing r id, p.nodeIds = r.nodeIds ++ id :: tail := by
  induction tail generalizing r id with
  | nil =>
    obtain rfl : id = last := Option.some.inj hlast
    obtain ⟨t, hnode⟩ := hterminal
    have hnew : id ∉ r.nodeIds := fun hmem =>
      (List.nodup_append.1 hnodup).2.2 id hmem id List.mem_cons_self rfl
    rw [listing_terminal (by simpa using hnew) hnode]
    exact ⟨_, List.mem_singleton_self _, rfl⟩
  | cons next tail ih =>
    obtain ⟨hstep, hsteps⟩ := List.isChain_cons_cons.1 hsteps
    obtain ⟨node, b, hnode, hb, rfl⟩ := hstep.exists_branch
    have hnew : id ∉ r.nodeIds := fun hmem =>
      (List.nodup_append.1 hnodup).2.2 id hmem id List.mem_cons_self rfl
    obtain ⟨p, hp, hids⟩ := ih (r := (r.visit id).follow b) hsteps
      (by rwa [List.getLast?_cons_cons] at hlast)
      (by rwa [Route.nodeIds_follow, Route.nodeIds_visit, List.append_assoc])
    refine ⟨p, mem_listing_of_mem_branches (by simpa using hnew) hnode hb hp, ?_⟩
    rw [hids, Route.nodeIds_follow, Route.nodeIds_visit, List.append_assoc]
    rfl

/-- A listed route goes on in steps to the terminal it ends at. -/
theorem exists_terminal_of_mem_listing {r p : Route} (h : p ∈ c.listing r id) :
    ∃ last, p.terminal? = some last ∧ c.IsTerminal last ∧
      Relation.ReflTransGen c.BranchStep id last := by
  induction hunseen : c.unseen r.nodeIds using Nat.strongRecOn generalizing r id with
  | ind n ih =>
    obtain ⟨hnew, ⟨t, hnode, rfl⟩ | ⟨node, b, hnode, hb, hp⟩⟩ := mem_listing_cases h
    · exact ⟨id, List.getLast?_concat, ⟨t, hnode⟩, .refl⟩
    · have hless : c.unseen (r.nodeIds ++ [id]) < n :=
        hunseen ▸ unseen_append_lt (Bool.eq_false_iff.1 hnew) hnode
      obtain ⟨last, hends, hterminal, hsteps⟩ := ih _ hless hp rfl
      exact ⟨last, hends, hterminal, .head (branchStep_of_mem_branches hnode hb) hsteps⟩

/-- The listed routes end at the terminals that can be reached. -/
theorem exists_listed_to_iff {last : String} :
    (∃ p ∈ c.listing {} c.entry, p.terminal? = some last) ↔
      Relation.ReflTransGen c.BranchStep c.entry last ∧ c.IsTerminal last := by
  constructor
  · rintro ⟨p, hp, hends⟩
    obtain ⟨last', hends', hterminal, hsteps⟩ := exists_terminal_of_mem_listing hp
    obtain rfl := Option.some.inj (hends.symm.trans hends')
    exact ⟨hsteps, hterminal⟩
  · rintro ⟨hreaches, hterminal⟩
    obtain ⟨tail, hsteps, hlast, hnodup⟩ := exists_nodup_isChain hreaches
    obtain ⟨p, hp, hids⟩ := exists_listed_of_isChain (r := {}) hsteps hlast hterminal hnodup
    exact ⟨p, hp, (congrArg List.getLast? hids).trans hlast⟩

end Chart

/-! ### Complete enumerations -/

/-- **A route is found exactly when there is one**: an enumeration that was not ended by a bound is
empty only if no branch steps, however often they come back, lead from the entry node to a terminal;
and the terminals that its routes end at are those that such steps lead to. -/
theorem routes_ne_nil_iff (c : Chart) (limits : Limits)
    (hcomplete : (c.enumerate limits).truncated = false) :
    ((c.enumerate limits).routes ≠ [] ↔
      ∃ last, Relation.ReflTransGen c.BranchStep c.entry last ∧ c.IsTerminal last) ∧
    ∀ last, (∃ p ∈ (c.enumerate limits).routes, p.terminal? = some last) ↔
      Relation.ReflTransGen c.BranchStep c.entry last ∧ c.IsTerminal last := by
  rw [Chart.enumerate_of_not_truncated hcomplete]
  refine ⟨⟨fun hne => ?_, ?_⟩, fun last => Chart.exists_listed_to_iff⟩
  · obtain ⟨p, hp⟩ := List.exists_mem_of_ne_nil _ hne
    obtain ⟨last, -, hterminal, hsteps⟩ := Chart.exists_terminal_of_mem_listing hp
    exact ⟨last, hsteps, hterminal⟩
  · rintro ⟨last, hreaches⟩
    obtain ⟨p, hp, -⟩ := Chart.exists_listed_to_iff.2 hreaches
    exact List.ne_nil_of_mem hp

/-- Steps that go round the detour and back to the choice before they come to the end. -/
theorem routes_ne_nil_iff_detour :
    (detourChart.enumerate {}).truncated = false ∧
      detourChart.BranchStep "choose" "check" ∧ detourChart.BranchStep "check" "choose" ∧
      detourChart.BranchStep "choose" "end" ∧ detourChart.IsTerminal "end" ∧
      (detourChart.enumerate {}).routes ≠ [] := by
  have hcomplete : (detourChart.enumerate {}).truncated = false := by decide +kernel
  have hround : detourChart.BranchStep "choose" "check" := .option 1 rfl nofun rfl rfl
  have hback : detourChart.BranchStep "check" "choose" := .onward rfl nofun nofun rfl
  have hstraight : detourChart.BranchStep "choose" "end" := .option 0 rfl nofun rfl rfl
  have hend : detourChart.IsTerminal "end" := ⟨{}, rfl⟩
  have hreaches : Relation.ReflTransGen detourChart.BranchStep detourChart.entry "end" :=
    .head hround (.head hback (.single hstraight))
  exact ⟨hcomplete, hround, hback, hstraight, hend,
    (routes_ne_nil_iff detourChart {} hcomplete).1.2 ⟨"end", hreaches, hend⟩⟩

end ProcedureChart
