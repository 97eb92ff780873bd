import Mathlib.Data.List.Forall2
import ProcedureChart.Proofs.Replay
import ProcedureChart.Route.Describe

/-!
# Descriptions and the routes they describe

An enumerated route records the options it takes and the checkpoints it passes; a description finds
them again from the nodes alone. It can only find one of the ways that lead from a node to the next
one. So what is described is always some route along these nodes, and it is the route that was
enumerated if and only if the ways between its nodes are recorded alike
(`describes_of_mem_enumerate`). Where a skip leads to the same node as an option, the description
takes the option, whether or not the route did (`not_describes_of_mem_enumerate`).
-/

namespace ProcedureChart

/-! ### Routes made of branches -/

namespace Route

/-- A route that goes on along some nodes, through the branches between them. -/
def along (r : Route) (nodeIds : List String) (bs : List Branch) : Route where
  nodeIds := r.nodeIds ++ nodeIds
  constraints := r.constraints ++ bs.flatMap Branch.constraints
  decisions := r.decisions ++ bs.filterMap Branch.step
  decisionCount := r.decisionCount + (bs.filterMap Branch.step).length
  checkpointCount := r.checkpointCount + bs.countP Branch.checkpoint
  decisionCount_eq := by rw [r.decisionCount_eq, List.length_append]

theorem along_nil (r : Route) (id : String) : r.along [id] [] = r.visit id := by
  simp [along, visit]

theorem along_follow (r : Route) (id : String) (b : Branch) (rest : List String)
    (bs : List Branch) :
    ((r.visit id).follow b).along rest bs = r.along (id :: rest) (b :: bs) := by
  cases hstep : b.step <;>
    simp [along, follow, visit, hstep, List.countP_cons, Nat.add_assoc, Nat.add_comm]

end Route

namespace Chart

variable {c : Chart} {r p q : Route} {id next : String} {b : Branch} {bs : List Branch}

/-- The ways on from a node to another one. -/
def ways (c : Chart) (id next : String) : List Branch :=
  match c.node? id with
  | none => []
  | some node => (c.branches id node).filter fun b => b.target == next

theorem mem_ways :
    b ∈ c.ways id next ↔
      ∃ node, c.node? id = some node ∧ b ∈ c.branches id node ∧ b.target = next := by
  rw [ways]
  split
  · next h => simp [h]
  · next node h => simp [h]

/-- One way for each of some hops. -/
def WaysAlong (c : Chart) (hops : List (String × String)) (bs : List Branch) : Prop :=
  List.Forall₂ (fun hop b => b ∈ c.ways hop.1 hop.2) hops bs

theorem hops_cons (id next : String) (rest : List String) :
    hops (id :: next :: rest) = (id, next) :: hops (next :: rest) := rfl

/-- A branch of a node continues a listing. -/
theorem mem_listing_of_mem_branches {node : Node} (hnew : r.nodeIds.contains id = false)
    (hnode : c.node? id = some node) (hb : b ∈ c.branches id node)
    (hp : p ∈ c.listing ((r.visit id).follow b) b.target) : p ∈ c.listing r id := by
  have hkind : node.kind ≠ .terminal := by
    intro hkind
    cases node with
    | terminal t => cases hb
    | instruction | decision | checkpoint | milestone | embellishment => cases hkind
  rw [listing_branches (Bool.eq_false_iff.1 hnew) hnode hkind]
  exact List.mem_flatMap.2 ⟨b, hb, hp⟩

/-- A listed route goes through ways between its nodes. -/
theorem exists_ways_of_mem_listing (hp : p ∈ c.listing r id) :
    ∃ rest bs, c.WaysAlong (hops (id :: rest)) bs ∧ p = r.along (id :: rest) bs := by
  induction hunseen : c.unseen r.nodeIds using Nat.strongRecOn generalizing r id with
  | ind n ih =>
    obtain ⟨hnew, ⟨t, hnode, rfl⟩ | ⟨node, b, hnode, hb, hp⟩⟩ := mem_listing_cases hp
    · exact ⟨[], [], .nil, (r.along_nil id).symm⟩
    · have hless : c.unseen (r.nodeIds ++ [id]) < n :=
        hunseen ▸ unseen_append_lt (Bool.eq_false_iff.1 hnew) hnode
      obtain ⟨rest, bs, hbs, rfl⟩ := ih _ hless hp rfl
      exact ⟨b.target :: rest, b :: bs, .cons (mem_ways.2 ⟨node, hnode, hb, rfl⟩) hbs,
        r.along_follow id b _ bs⟩

/-- Along the nodes of a listed route, every choice of ways is listed. The nodes alone decide where
a listing ends, so two routes over the same nodes go on together. -/
theorem along_mem_listing {r' : Route} {rest : List String} (hp : p ∈ c.listing r id)
    (hnodes : p.nodeIds = r.nodeIds ++ id :: rest) (hbs : c.WaysAlong (hops (id :: rest)) bs)
    (hr : r'.nodeIds = r.nodeIds) : r'.along (id :: rest) bs ∈ c.listing r' id := by
  induction hunseen : c.unseen r.nodeIds using Nat.strongRecOn generalizing r r' id rest bs with
  | ind n ih =>
    obtain ⟨hnew, ⟨t, hnode, rfl⟩ | ⟨node, b, hnode, hb, hp⟩⟩ := mem_listing_cases hp
    · -- nothing follows a terminal
      obtain rfl : rest = [] := by simpa using hnodes
      cases hbs
      rw [Route.along_nil, listing_terminal (Bool.eq_false_iff.1 (hr ▸ hnew)) hnode]
      exact List.mem_singleton.2 rfl
    · have hless : c.unseen (r.nodeIds ++ [id]) < n :=
        hunseen ▸ unseen_append_lt (Bool.eq_false_iff.1 hnew) hnode
      obtain ⟨tail, htail⟩ := (prefix_of_mem_listing hp).1
      obtain rfl : rest = b.target :: tail := by
        rw [← htail] at hnodes
        simpa using hnodes.symm
      rw [hops_cons] at hbs
      obtain ⟨b', bs', hway, hbs', rfl⟩ := List.forall₂_cons_left_iff.1 hbs
      obtain ⟨node', hnode', hb', htarget⟩ := mem_ways.1 hway
      have hrest : p.nodeIds = ((r.visit id).follow b).nodeIds ++ b.target :: tail := by
        rw [← htail, List.append_assoc, List.singleton_append]
      have hlisted := ih _ hless hp hrest hbs' (show ((r'.visit id).follow b').nodeIds = _ by
        rw [Route.nodeIds_follow, Route.nodeIds_visit, hr]; rfl) rfl
      rw [Route.along_follow] at hlisted
      exact mem_listing_of_mem_branches (hr ▸ hnew) hnode' hb' (htarget ▸ hlisted)

/-! ### The ways that descriptions find -/

/-- Whether a way is recorded as the description of its hop. -/
def isDescribedWay (c : Chart) (id next : String) (b : Branch) : Bool :=
  b.step == c.stepBetween? id next && b.checkpoint == c.passesCheckpoint id next

/-- If a hop can be made at all, there is a way for it that is recorded as it is described. Which
one it is depends on the kind of the node: passing a checkpoint comes before its skip, and an option
with the right target before the skip of a decision. -/
theorem exists_isDescribedWay (h : b ∈ c.ways id next) :
    ∃ b' ∈ c.ways id next, c.isDescribedWay id next b' := by
  obtain ⟨node, hnode, hb, rfl⟩ := mem_ways.1 h
  cases node with
  | terminal t => cases hb
  | instruction n | milestone n | embellishment n =>
    obtain ⟨target, -, rfl⟩ := Option.map_eq_some_iff.1 (Option.mem_toList.1 hb)
    exact ⟨_, h, by simp [isDescribedWay, stepBetween?, passesCheckpoint, hnode]⟩
  | checkpoint n =>
    by_cases hnext : c.nextOf? id = some b.target
    · -- passing the checkpoint leads there, whether or not `b` passes it
      let passing : Branch :=
        { target := b.target, constraints := Branch.notSkipping id n.openSkip?, checkpoint := true }
      have hpassing : passing ∈ c.branches id (.checkpoint n) :=
        List.mem_append_right _ (by rw [hnext]; exact List.mem_singleton.2 rfl)
      refine ⟨passing, mem_ways.2 ⟨_, hnode, hpassing, rfl⟩, ?_⟩
      simp [isDescribedWay, stepBetween?, passesCheckpoint, hnode, hnext, passing]
    · rcases List.mem_append.1 hb with hskip | hpass
      · obtain ⟨skip, -, rfl⟩ := Option.map_eq_some_iff.1 (Option.mem_toList.1 hskip)
        refine ⟨_, h, ?_⟩
        simpa [isDescribedWay, stepBetween?, passesCheckpoint, hnode, Branch.skipping] using hnext
      · obtain ⟨target, htarget, rfl⟩ := Option.map_eq_some_iff.1 (Option.mem_toList.1 hpass)
        exact absurd htarget hnext
  | decision d =>
    cases hexcluded : d.excludeFromExampleStructure with
    | true =>
      -- neither the skip nor the first option is a step
      refine ⟨b, h, ?_⟩
      have hplain : b.step = none ∧ b.checkpoint = false := by
        rcases List.mem_append.1 hb with hskip | hoption
        · obtain ⟨skip, -, rfl⟩ := Option.map_eq_some_iff.1 (Option.mem_toList.1 hskip)
          exact ⟨rfl, rfl⟩
        · rw [optionBranches, if_pos hexcluded] at hoption
          split at hoption
          · cases hoption
          · obtain ⟨target, -, rfl⟩ := Option.map_eq_some_iff.1 (Option.mem_toList.1 hoption)
            exact ⟨rfl, rfl⟩
      simp [isDescribedWay, stepBetween?, passesCheckpoint, hnode, hexcluded, hplain]
    | false =>
      cases hfound : c.optionTo? id d b.target with
      | none =>
        -- no option leads there, so the skip does
        rcases List.mem_append.1 hb with hskip | hoption
        · obtain ⟨skip, -, rfl⟩ := Option.map_eq_some_iff.1 (Option.mem_toList.1 hskip)
          refine ⟨_, h, ?_⟩
          rw [Branch.target_skipping] at hfound
          simp [isDescribedWay, stepBetween?, passesCheckpoint, hnode, hfound, Branch.skipping]
        · obtain ⟨index, o, ho, htarget, -⟩ := mem_optionBranches hexcluded hoption
          obtain ⟨o', index', hfound', -⟩ := exists_optionTo? ho htarget
          rw [hfound] at hfound'
          cases hfound'
      | some found =>
        obtain ⟨o, index⟩ := found
        have htarget : c.optionTarget? id index o = some b.target := by
          simpa using List.find?_some hfound
        have hchoosing : Branch.choosing id d index o b.target ∈ c.branches id (.decision d) := by
          refine List.mem_append_right _ ?_
          rw [optionBranches, if_neg (by rw [hexcluded]; decide)]
          refine List.mem_filterMap.2 ⟨(o, index), List.mem_of_find?_eq_some hfound, ?_⟩
          simp only [htarget, Option.map_some]
        refine ⟨_, mem_ways.2 ⟨_, hnode, hchoosing, rfl⟩, ?_⟩
        simp [isDescribedWay, stepBetween?, passesCheckpoint, hnode, hexcluded, hfound,
          Branch.choosing]

/-! ### Hops and ways recorded for them -/

/-- Whether ways are recorded together as the description of their hops. -/
def Described (c : Chart) (hops : List (String × String)) (bs : List Branch) : Prop :=
  (hops.filterMap fun (id, next) => c.stepBetween? id next) = bs.filterMap Branch.step ∧
    (hops.countP fun (id, next) => c.passesCheckpoint id next) = bs.countP Branch.checkpoint

variable {hops : List (String × String)}

theorem described_cons_iff :
    c.Described ((id, next) :: hops) (b :: bs) ↔
      (c.stepBetween? id next).toList ++ (hops.filterMap fun (id, next) => c.stepBetween? id next) =
          b.step.toList ++ bs.filterMap Branch.step ∧
        (hops.countP fun (id, next) => c.passesCheckpoint id next) +
            (if c.passesCheckpoint id next then 1 else 0) =
          bs.countP Branch.checkpoint + if b.checkpoint then 1 else 0 := by
  have hcons : ∀ {α β : Type} (f : α → Option β) (a : α) (l : List α),
      (a :: l).filterMap f = (f a).toList ++ l.filterMap f := by
    intro α β f a l
    cases h : f a <;> simp [h]
  rw [Described, List.countP_cons, List.countP_cons, hcons, hcons]

/-- Behind a way that is recorded as it is described, the others decide. -/
theorem described_cons_iff_of_isDescribedWay (h : c.isDescribedWay id next b) :
    c.Described ((id, next) :: hops) (b :: bs) ↔ c.Described hops bs := by
  obtain ⟨hstep, hcheckpoint⟩ : b.step = c.stepBetween? id next ∧
      b.checkpoint = c.passesCheckpoint id next := by simpa [isDescribedWay] using h
  rw [described_cons_iff, hstep, hcheckpoint, List.append_cancel_left_eq, Nat.add_right_cancel_iff,
    Described]

/-- In front of ways that are recorded as they are described, a way decides by itself. -/
theorem described_cons_iff_of_described (h : c.Described hops bs) :
    c.Described ((id, next) :: hops) (b :: bs) ↔ c.isDescribedWay id next b := by
  rw [described_cons_iff, h.1, h.2, List.append_cancel_right_eq, Nat.add_left_cancel_iff,
    isDescribedWay, Bool.and_eq_true, beq_iff_eq, beq_iff_eq]
  refine and_congr ?_ ?_
  · cases c.stepBetween? id next <;> cases b.step <;> simp [eq_comm]
  · cases c.passesCheckpoint id next <;> cases b.checkpoint <;> decide

/-- Hops that can be made can be made by ways that are recorded as they are described. -/
theorem exists_described (h : c.WaysAlong hops bs) :
    ∃ bs', c.WaysAlong hops bs' ∧ c.Described hops bs' := by
  induction h with
  | nil => exact ⟨[], .nil, rfl, rfl⟩
  | cons hway _ ih =>
    obtain ⟨b, hb, hdescribed⟩ := exists_isDescribedWay hway
    obtain ⟨bs, hbs, hrest⟩ := ih
    exact ⟨b :: bs, .cons hb hbs, (described_cons_iff_of_isDescribedWay hdescribed).2 hrest⟩

/-- All ways of some hops are recorded as they are described if each way of each hop is. In one
direction a way is put between described ones, so that it is the only one to be looked at. -/
theorem forall_described_iff (h : c.WaysAlong hops bs) :
    (∀ bs', c.WaysAlong hops bs' → c.Described hops bs') ↔
      ∀ hop ∈ hops, ∀ b ∈ c.ways hop.1 hop.2, c.isDescribedWay hop.1 hop.2 b := by
  induction h with
  | nil => simp [WaysAlong, Described]
  | @cons hop b₀ hops bs₀ hway hways ih =>
    obtain ⟨b, hb, hdescribed⟩ := exists_isDescribedWay hway
    obtain ⟨bs, hbs, hrest⟩ := exists_described hways
    rw [List.forall_mem_cons, ← ih]
    constructor
    · intro hall
      refine ⟨fun b' hb' => ?_, fun bs' hbs' => ?_⟩
      · exact (described_cons_iff_of_described hrest).1 (hall _ (.cons hb' hbs))
      · exact (described_cons_iff_of_isDescribedWay hdescribed).1 (hall _ (.cons hb hbs'))
    · rintro ⟨hhead, htail⟩ bs' hways'
      obtain ⟨b', bs'', hb', hbs'', rfl⟩ := List.forall₂_cons_left_iff.1 hways'
      exact (described_cons_iff_of_isDescribedWay (hhead b' hb')).2 (htail bs'' hbs'')

/-- Whether the ways between neighbouring nodes of a sequence are recorded alike: they are the same
step, if any, and either all pass a checkpoint or none does. -/
def waysAgree (c : Chart) (route : List String) : Bool :=
  (Chart.hops route).all fun (id, next) =>
    (c.ways id next).all fun b => (c.ways id next).all fun b' =>
      b.step == b'.step && b.checkpoint == b'.checkpoint

/-- Ways agree if each is recorded as it is described. -/
theorem waysAgree_iff {route : List String} :
    c.waysAgree route ↔
      ∀ hop ∈ Chart.hops route, ∀ b ∈ c.ways hop.1 hop.2, c.isDescribedWay hop.1 hop.2 b := by
  simp only [waysAgree, List.all_eq_true, Bool.and_eq_true, beq_iff_eq, isDescribedWay]
  refine forall₂_congr fun hop _ => ?_
  constructor
  · intro hagree b hb
    obtain ⟨b', hb', hdescribed⟩ := exists_isDescribedWay hb
    obtain ⟨hstep, hcheckpoint⟩ : b'.step = c.stepBetween? hop.1 hop.2 ∧
        b'.checkpoint = c.passesCheckpoint hop.1 hop.2 := by simpa [isDescribedWay] using hdescribed
    exact hstep ▸ hcheckpoint ▸ hagree b hb b' hb'
  · intro hdescribed b hb b' hb'
    exact ⟨(hdescribed b hb).1.trans (hdescribed b' hb').1.symm,
      (hdescribed b hb).2.trans (hdescribed b' hb').2.symm⟩

/-! ### Descriptions of listed routes -/

/-- Whether the description of the nodes of a route is what the route records. -/
def Describes (c : Chart) (r : Route) : Prop :=
  c.stepsAlong r.nodeIds = r.decisions ∧ c.describe r.nodeIds = r.descriptor ∧
    c.checkpointsAlong r.nodeIds = r.checkpointCount

instance (c : Chart) (r : Route) : Decidable (c.Describes r) :=
  inferInstanceAs (Decidable (_ ∧ _ ∧ _))

theorem describes_along_iff (nodeIds : List String) :
    c.Describes (({} : Route).along nodeIds bs) ↔ c.Described (Chart.hops nodeIds) bs := by
  simp only [Describes, Described, Route.along, describe, Route.descriptor, stepsAlong,
    checkpointsAlong, List.nil_append, Nat.zero_add]
  exact ⟨fun h => ⟨h.1, h.2.2⟩, fun h => ⟨h.1, congrArg descriptorOf h.1, h.2⟩⟩

end Chart

/-- **What descriptions describe**: along the nodes of an enumerated route, the description is that
of some listed route. If the ways between these nodes are recorded alike, it is that of the
enumerated route; and if it is that of every route along these nodes, the ways are recorded
alike. -/
theorem describes_of_mem_enumerate (c : Chart) (limits : Limits) {p : Route}
    (hp : p ∈ (c.enumerate limits).routes) :
    (c.waysAgree p.nodeIds → c.stepsAlong p.nodeIds = p.decisions ∧
      c.describe p.nodeIds = p.descriptor ∧ c.checkpointsAlong p.nodeIds = p.checkpointCount) ∧
    (∃ q ∈ c.listing {} c.entry, q.nodeIds = p.nodeIds ∧ c.Describes q) ∧
    (c.waysAgree p.nodeIds ↔
      ∀ q ∈ c.listing {} c.entry, q.nodeIds = p.nodeIds → c.Describes q) := by
  have hlisted := Chart.mem_listing_of_mem_enumerate hp
  obtain ⟨rest, bs, hways, hp⟩ := Chart.exists_ways_of_mem_listing hlisted
  have hnodes : p.nodeIds = c.entry :: rest := by rw [hp]; rfl
  have hiff : c.waysAgree p.nodeIds ↔
      ∀ q ∈ c.listing {} c.entry, q.nodeIds = p.nodeIds → c.Describes q := by
    rw [hnodes, Chart.waysAgree_iff, ← Chart.forall_described_iff hways]
    constructor
    · intro hall q hq hnodesQ
      obtain ⟨rest', bs', hways', rfl⟩ := Chart.exists_ways_of_mem_listing hq
      rw [← hnodesQ] at hall
      exact (Chart.describes_along_iff _).2 (hall bs' hways')
    · intro hall bs' hways'
      exact (Chart.describes_along_iff _).1
        (hall _ (Chart.along_mem_listing hlisted hnodes hways' rfl) rfl)
  refine ⟨fun hagree => hiff.1 hagree p hlisted rfl, ?_, hiff⟩
  obtain ⟨bs', hways', hdescribed⟩ := Chart.exists_described hways
  exact ⟨_, Chart.along_mem_listing hlisted hnodes hways' rfl, hnodes.symm,
    (Chart.describes_along_iff _).2 hdescribed⟩

/-- The route that answers, passes the checkpoint and chooses the second option. -/
theorem describes_of_mem_enumerate_size :
    ∃ p ∈ (sizeChart.enumerate {}).routes,
      p.nodeIds = ["large", "digits", "how", "check", "end"] ∧ sizeChart.waysAgree p.nodeIds ∧
      sizeChart.describe p.nodeIds = p.descriptor ∧ p.descriptor = "Yes / Mentally" := by
  have hfound : ∃ p ∈ (sizeChart.enumerate {}).routes,
      p.nodeIds = ["large", "digits", "how", "check", "end"] ∧
      sizeChart.waysAgree p.nodeIds ∧ p.descriptor = "Yes / Mentally" := by decide +kernel
  obtain ⟨p, hp, hnodes, hagree, hdescriptor⟩ := hfound
  exact ⟨p, hp, hnodes, hagree, ((describes_of_mem_enumerate sizeChart {} hp).1 hagree).2.1,
    hdescriptor⟩

/-- A chart in which a decision may be skipped to the node that its only option leads to, and the
checkpoint there to the node that follows it. -/
def shortcutChart : Chart where
  definition := {
    id := "shortcut"
    title := "Shortcut"
    problemInput := { schema := "shortcut", fields := [{ name := "n" }] }
    entryNode := "start"
    nodes := .ofList [
      ("start", .decision {
        options := [{ label := "Go", value := "go", next := some "check" }]
        skipIf := some (.ofSource "n > 5"), skipTo := some "check" }),
      ("check", .checkpoint {
        prompt := "How many?", expected := .single (.ofSource "n"), next := some "end"
        skipIf := some (.ofSource "n > 5"), skipTo := some "end" }),
      ("end", .terminal {})] }
  diagram := {}
  entry_defined := by decide

/-- The route that skips both nodes is described as the one that skips neither. -/
theorem not_describes_of_mem_enumerate :
    ∃ p ∈ (shortcutChart.enumerate { maxPaths := 1 }).routes,
      p.nodeIds = ["start", "check", "end"] ∧
      p.decisions = [] ∧ shortcutChart.stepsAlong p.nodeIds = [⟨"start", 0, "go", "Go"⟩] ∧
      p.descriptor = "Default" ∧ shortcutChart.describe p.nodeIds = "Go" ∧
      p.checkpointCount = 0 ∧ shortcutChart.checkpointsAlong p.nodeIds = 1 := by
  decide +kernel

end ProcedureChart
