import Mathlib.Data.List.Nodup
import Mathlib.Data.List.Perm.Subperm
import ProcedureChart.Proofs.Loop
import ProcedureChart.Proofs.Replay
import ProcedureChart.Proofs.WalkedRoutes

/-!
# Routes are well formed

What a route is, apart from how it was found: it leads from the entry node to a terminal, from each
node to one of its successors, through no other terminal and through no node twice
(`Chart.IsRoute`). The successors of a node are collected from its fields once and for all, whereas
the branches and the walk find their targets one at a time, so the main point is that every branch
leads to a successor (`target_mem_successors`). Every listed route is well formed then, and with it
all that is enumerated and all that is walked (`routes_wellFormed`).
-/

namespace ProcedureChart.Chart

variable {c : Chart} {ctx : Context} {hint : Option (List String)}

/-! ### What a route is -/

/-- Whether an id is that of a terminal. -/
def IsTerminal (c : Chart) (id : String) : Prop := ∃ t, c.node? id = some (.terminal t)

/-- A sequence of nodes that is a route of the chart. -/
structure IsRoute (c : Chart) (route : List String) : Prop where
  starts : route.head? = some c.entry
  ends : ∃ before last, route = before ++ [last] ∧ c.IsTerminal last ∧
    ∀ id ∈ before, ¬ c.IsTerminal id
  nodup : route.Nodup
  length_le : route.length ≤ c.definition.nodes.size
  steps : route.IsChain fun id next => next ∈ c.successors id

/-! ### Branches lead to successors -/

/-- Every way on from a node leads to one of its successors, which are listed without regard to what
it takes to follow them. -/
theorem target_mem_successors {id : String} {node : Node} {b : Branch}
    (hnode : c.node? id = some node) (hb : b ∈ c.branches id node) :
    b.target ∈ c.successors id := by
  have hskipping : ∀ {skip : Option Skip}, b ∈ (skip.map (Branch.skipping id)).toList →
      b.target ∈ (skip.map Skip.target).toList := by
    intro skip hb
    cases skip with
    | none => cases hb
    | some skip =>
      obtain rfl := List.mem_singleton.1 hb
      exact List.mem_singleton.2 rfl
  cases node with
  | terminal t => cases hb
  | instruction n | milestone n | embellishment n =>
    simp only [successors, hnode]
    obtain ⟨target, htarget, rfl⟩ := Option.map_eq_some_iff.1 (Option.mem_toList.1 hb)
    exact Option.mem_toList.2 htarget
  | checkpoint n =>
    simp only [successors, hnode, List.mem_eraseDups]
    apply List.mem_append.2
    rcases List.mem_append.1 hb with hb | hb
    · refine .inr (hskipping ?_)
      rw [Checkpoint.openSkip?] at hb
      split at hb
      · cases hb
      · exact hb
    · obtain ⟨target, htarget, rfl⟩ := Option.map_eq_some_iff.1 (Option.mem_toList.1 hb)
      exact .inl (Option.mem_toList.2 htarget)
  | decision d =>
    simp only [successors, hnode, List.mem_eraseDups]
    apply List.mem_append.2
    rcases List.mem_append.1 hb with hb | hb
    · exact .inr (hskipping hb)
    · refine .inl (List.mem_filterMap.2 ?_)
      cases hexcluded : d.excludeFromExampleStructure with
      | true =>
        obtain ⟨o, ho, htarget, -⟩ := mem_optionBranches_excluded hexcluded hb
        exact ⟨(o, 0), List.mem_zipIdx_iff_getElem?.2 ho, htarget⟩
      | false =>
        obtain ⟨index, o, ho, htarget, -⟩ := mem_optionBranches hexcluded hb
        exact ⟨(o, index), List.mem_zipIdx_iff_getElem?.2 ho, htarget⟩

/-! ### Listed routes -/

/-- The nodes behind one node of a route: each is a successor of the one before, and the last one
is the only terminal. -/
inductive Leads (c : Chart) : String → List String → Prop
  | arrive {id : String} {t : Terminal} : c.node? id = some (.terminal t) → Leads c id []
  | step {id next : String} {tail : List String} {node : Node} : c.node? id = some node →
      node.kind ≠ .terminal → next ∈ c.successors id → Leads c next tail →
      Leads c id (next :: tail)

namespace Leads

variable {id : String} {tail : List String}

theorem steps (h : c.Leads id tail) :
    (id :: tail).IsChain fun id next => next ∈ c.successors id := by
  induction h with
  | arrive _ => exact .singleton _
  | step _ _ hnext _ ih => exact .cons_cons hnext ih

theorem ends (h : c.Leads id tail) :
    ∃ before last, id :: tail = before ++ [last] ∧ c.IsTerminal last ∧
      ∀ other ∈ before, ¬ c.IsTerminal other := by
  induction h with
  | @arrive id t hnode => exact ⟨[], id, rfl, ⟨t, hnode⟩, List.forall_mem_nil _⟩
  | @step id next tail node hnode hkind _ _ ih =>
    obtain ⟨before, last, heq, hlast, hbefore⟩ := ih
    refine ⟨id :: before, last, congrArg (id :: ·) heq, hlast, List.forall_mem_cons.2 ⟨?_, hbefore⟩⟩
    rintro ⟨t, ht⟩
    obtain rfl := Option.some.inj (hnode.symm.trans ht)
    exact hkind rfl

theorem defined (h : c.Leads id tail) : ∀ other ∈ id :: tail, other ∈ c.definition.nodes.keys := by
  induction h with
  | arrive hnode =>
    exact List.forall_mem_singleton.2 (Table.mem_keys_of_get?_eq_some hnode)
  | step hnode _ _ _ ih => exact List.forall_mem_cons.2 ⟨Table.mem_keys_of_get?_eq_some hnode, ih⟩

end Leads

/-- What a listed route adds to the route it began with. Each node leads to the next one, the last
is a terminal, and none is visited twice. -/
theorem exists_tail_of_mem_listing {r p : Route} {id : String} (h : p ∈ c.listing r id) :
    ∃ tail, p.nodeIds = r.nodeIds ++ id :: tail ∧ c.Leads id tail ∧
      (r.nodeIds.Nodup → p.nodeIds.Nodup) := by
  induction hunseen : c.unseen r.nodeIds using Nat.strongRecOn generalizing r id with
  | ind n ih =>
    have hnodup : ∀ {ids : List String}, ids.contains id = false → ids.Nodup →
        (ids ++ [id]).Nodup := by
      intro ids hnew hids
      rw [← List.concat_eq_append]
      exact hids.concat (by simpa using hnew)
    obtain ⟨hnew, ⟨t, hnode, rfl⟩ | ⟨node, b, hnode, hb, hp⟩⟩ := mem_listing_cases h
    · exact ⟨[], rfl, .arrive hnode, hnodup hnew⟩
    · have hless : c.unseen (r.nodeIds ++ [id]) < n :=
        hunseen ▸ unseen_append_lt (Bool.eq_false_iff.1 hnew) hnode
      obtain ⟨tail, hids, hleads, hrest⟩ := ih _ hless hp rfl
      have hkind : node.kind ≠ .terminal := by
        intro hkind
        cases node with
        | terminal t => cases hb
        | instruction | decision | checkpoint | milestone | embellishment => cases hkind
      refine ⟨b.target :: tail, ?_, .step hnode hkind (target_mem_successors hnode hb) hleads, ?_⟩
      · simpa using hids
      · intro hr
        exact hrest (hnodup hnew hr)

/-- Listed routes are well formed. -/
theorem isRoute_of_mem_listing {p : Route} (h : p ∈ c.listing {} c.entry) :
    c.IsRoute p.nodeIds := by
  obtain ⟨tail, hids, hleads, hnodup⟩ := exists_tail_of_mem_listing h
  have hnodup : p.nodeIds.Nodup := hnodup List.nodup_nil
  have hids : p.nodeIds = c.entry :: tail := hids
  rw [hids] at hnodup ⊢
  refine ⟨rfl, hleads.ends, hnodup, ?_, hleads.steps⟩
  have hle := (hnodup.subperm fun other hother => hleads.defined other hother).length_le
  rwa [Table.keys, List.length_map] at hle

/-! ### The walk as a loop -/

/-- One turn of the walk: from the route so far and the node it comes to next. -/
def walkTurn (c : Chart) (ctx : Context) (hint : Option (List String))
    (state : List String × String) : Option (List String) ⊕ List String × String :=
  let (route, id) := state
  if route.contains id then .inl none
  else
    match c.node? id with
    | none => .inl none
    | some (.terminal _) => .inl (some (route ++ [id]))
    | some node =>
      match c.successor? id node ctx hint with
      | none => .inl none
      | some next => .inr (route ++ [id], next)

/-- A turn ends the walk at a node that is on the route already, or that is not defined. -/
theorem walkTurn_stuck {route : List String} {id : String}
    (h : route.contains id = true ∨ c.node? id = none) :
    c.walkTurn ctx hint (route, id) = .inl none := by
  by_cases hold : route.contains id = true
  · simp only [walkTurn, hold, if_true]
  · simp only [walkTurn, hold, h.resolve_left hold, Bool.false_eq_true, if_false]

theorem walkFrom_stuck {steps : Nat} {seen : List String} {id : String}
    (h : seen.contains id = true ∨ c.node? id = none) :
    c.walkFrom ctx hint steps seen id = none := by
  cases steps with
  | zero => rfl
  | succ steps =>
    by_cases hold : seen.contains id = true
    · rw [walkFrom, if_pos hold]
    · simp only [walkFrom, hold, h.resolve_left hold, Bool.false_eq_true, if_false]

/-- With as many steps left as there are nodes unseen, a walk ends like the loop. Each step sees a
node more, so the steps never run out first. -/
theorem walkFrom_ends {steps : Nat} {seen route : List String} {id : String}
    (hseen : ∀ other, seen.contains other = route.contains other)
    (hsteps : c.unseen route ≤ steps) :
    Loop.Ends (c.walkTurn ctx hint) (route, id)
      ((c.walkFrom ctx hint steps seen id).map (route ++ ·)) := by
  by_cases hstuck : route.contains id = true ∨ c.node? id = none
  · rw [walkFrom_stuck (by rwa [hseen])]
    exact .here (walkTurn_stuck hstuck)
  obtain ⟨hnew, hdefined⟩ := not_or.1 hstuck
  obtain ⟨node, hnode⟩ := Option.ne_none_iff_exists'.1 hdefined
  have hless := unseen_append_lt hnew hnode
  have hnew' : seen.contains id = false := (hseen id).trans (Bool.eq_false_iff.2 hnew)
  cases steps with
  | zero => omega
  | succ steps =>
    cases hnext : c.successor? id node ctx hint with
    | some next =>
      have hturn : c.walkTurn ctx hint (route, id) = .inr (route ++ [id], next) := by
        cases node with
        | terminal t => cases hnext
        | instruction | decision | checkpoint | milestone | embellishment =>
          simp only [walkTurn, hnew, hnode, hnext, Bool.false_eq_true, if_false]
      have hseen' : ∀ other, (id :: seen).contains other = (route ++ [id]).contains other := by
        intro other
        rw [List.contains_cons, hseen, List.contains_append, List.contains_cons,
          List.contains_nil, Bool.or_false, Bool.or_comm]
      have hrest : Loop.Ends (c.walkTurn ctx hint) (route ++ [id], next)
          ((c.walkFrom ctx hint steps (id :: seen) next).map (route ++ [id] ++ ·)) :=
        walkFrom_ends hseen' (Nat.le_of_lt_succ (Nat.lt_of_lt_of_le hless hsteps))
      refine .after hturn ?_
      rw [walkFrom_move hnew' hnode hnext, Option.map_map]
      simpa [Function.comp_def] using hrest
    | none =>
      apply Loop.Ends.here
      cases node with
      | terminal t =>
        rw [walkFrom_terminal hnew' hnode]
        simp only [walkTurn, hnew, hnode, Bool.false_eq_true, if_false, Option.map_some]
      | instruction | decision | checkpoint | milestone | embellishment =>
        simp only [walkTurn, walkFrom, hnew, hnew', hnode, hnext, Bool.false_eq_true, if_false,
          Option.map_none]

/-- **The walk is the loop**: turning until it ends, however many turns that takes, the loop ends
with the walk. A node that was seen before ends it, so there are no more turns than nodes, and the
bound that the walk recurses on cuts nothing short. -/
theorem walk_ends (c : Chart) (ctx : Context) (hint : Option (List String)) :
    Loop.Ends (c.walkTurn ctx hint) ([], c.entry) (c.walk ctx hint) := by
  have hseen : ∀ other, ([] : List String).contains other = ([] : List String).contains other :=
    fun _ => rfl
  simpa [walk] using walkFrom_ends (c := c) hseen (c.unseen_le_size [])

end ProcedureChart.Chart

namespace ProcedureChart

/-- **Routes are well formed**: whatever the bounds, the context and the hint, each route that is
enumerated and each route that is walked leads from the entry node to a terminal, from each node to
one of its successors, through no other terminal and no node twice. The walk as a loop, with no
bound on its turns, ends, and it ends with the route that is walked. -/
theorem routes_wellFormed (c : Chart) :
    (∀ limits, ∀ p ∈ (c.enumerate limits).routes, c.IsRoute p.nodeIds) ∧
    ∀ ctx hint,
      (∀ route, c.walk ctx hint = some route → c.IsRoute route) ∧
      ∀ result, Loop.Ends (c.walkTurn ctx hint) ([], c.entry) result ↔
        c.walk ctx hint = result := by
  constructor
  · intro limits p hp
    exact Chart.isRoute_of_mem_listing (Chart.mem_listing_of_mem_enumerate hp)
  · intro ctx hint
    constructor
    · intro route hwalk
      obtain ⟨p, hp, rfl⟩ := Chart.exists_listed_of_walk hwalk
      exact Chart.isRoute_of_mem_listing hp
    · intro result
      exact (c.walk_ends ctx hint).iff_eq

/-- The detour, which leads back to where it began, is enumerated and walked as far as its skip. -/
theorem routes_wellFormed_detour :
    (∃ p ∈ (detourChart.enumerate {}).routes, p.nodeIds = ["choose", "check", "end"] ∧
      detourChart.IsRoute p.nodeIds) ∧
    detourChart.walk { problem := .ofList [("n", .number 2)] } (some ["choose", "check"]) =
      some ["choose", "check", "end"] ∧
    detourChart.IsRoute ["choose", "check", "end"] := by
  have hfound : ∃ p ∈ (detourChart.enumerate {}).routes,
      p.nodeIds = ["choose", "check", "end"] := by decide +kernel
  have hwalk : detourChart.walk { problem := .ofList [("n", .number 2)] }
      (some ["choose", "check"]) = some ["choose", "check", "end"] := by decide +kernel
  obtain ⟨p, hp, hids⟩ := hfound
  obtain ⟨henumerated, hwalked⟩ := routes_wellFormed detourChart
  exact ⟨⟨p, hp, hids, henumerated {} p hp⟩, hwalk, (hwalked _ _).1 _ hwalk⟩

end ProcedureChart
