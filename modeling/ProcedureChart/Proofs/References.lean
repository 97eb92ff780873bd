import ProcedureChart.Proofs.Tables
import ProcedureChart.Proofs.WellFormed

/-!
# The reference check

The check looks at the successors of every node. The search for routes and the walk look nodes up
themselves, one at a time, and take an undefined node for a dead end without a word. As loops, the
search works off a stack of open ends and the walk goes from node to node; wherever they go on to is
a successor. So in a chart that passes the check both of them come to defined nodes only
(`checkReferences_sound`).
-/

namespace ProcedureChart.Chart

variable {c : Chart} {ctx : Context} {hint : Option (List String)} {limits : Limits}

/-! ### The search as a loop -/

/-- One turn of the search: from a stack of open ends and what has been found so far. -/
def searchTurn (c : Chart) (limits : Limits) (state : List OpenEnd × Enumeration) :
    Enumeration ⊕ List OpenEnd × Enumeration :=
  match state with
  | ([], found) => .inl found
  | (e :: stack, found) =>
    if limits.maxIterations ≤ found.iterations ∨ limits.maxPaths ≤ found.routes.length then
      .inl { found with truncated := true }
    else
      let found := { found with iterations := found.iterations + 1 }
      match c.visit e with
      | .arrived route => .inr (stack, { found with routes := found.routes ++ [route] })
      | .onward ends => .inr (ends ++ stack, found)

/-- With as many visits and routes left as the bounds allow, the search ends like the loop. The
search counts both down and collects the routes in reverse; the loop compares what it has found with
the bounds. -/
theorem explore_ends {visits room : Nat} {stack : List OpenEnd} {found : Enumeration}
    (hvisits : found.iterations + visits = limits.maxIterations)
    (hroom : found.routes.length + room = limits.maxPaths) :
    Loop.Ends (c.searchTurn limits) (stack, { found with routes := found.routes.reverse })
      (let e := c.explore visits room stack found
       { e with routes := e.routes.reverse }) := by
  induction visits generalizing room stack found with
  | zero =>
    apply Loop.Ends.here
    cases stack with
    | nil => rw [explore_nil, searchTurn]
    | cons e stack =>
      have hbound : limits.maxIterations ≤ found.iterations := Nat.le_of_eq hvisits.symm
      simp only [searchTurn, hbound, true_or, if_true, explore_no_visits]
  | succ visits ih =>
    cases stack with
    | nil =>
      apply Loop.Ends.here
      rw [explore_nil, searchTurn]
    | cons e stack =>
      have hvisit : ¬ limits.maxIterations ≤ found.iterations := by omega
      cases room with
      | zero =>
        apply Loop.Ends.here
        have hbound : limits.maxPaths ≤ found.routes.length := Nat.le_of_eq hroom.symm
        simp only [searchTurn, List.length_reverse, hbound, or_true, if_true, explore_no_room]
      | succ room =>
        have hpath : ¬ limits.maxPaths ≤ found.routes.length := by omega
        cases hturn : c.visit e with
        | arrived route =>
          rw [explore_arrived _ _ _ _ _ hturn]
          refine .after ?_ (ih ((Nat.add_right_comm _ _ _).trans hvisits)
            ((Nat.add_right_comm _ _ _).trans hroom))
          simp only [searchTurn, List.length_reverse, hvisit, hpath, or_self, if_false, hturn,
            List.reverse_cons]
        | onward ends =>
          rw [explore_onward _ _ _ _ _ hturn]
          refine .after ?_ (ih ((Nat.add_right_comm _ _ _).trans hvisits) hroom)
          simp only [searchTurn, List.length_reverse, hvisit, hpath, or_self, if_false, hturn]

/-- **The enumeration is the loop** over a stack that holds the entry node at first. It ends because
its limits do: each turn is a visit, and a visit beyond the limit is the last one. -/
theorem enumerate_ends (c : Chart) (limits : Limits) :
    Loop.Ends (c.searchTurn limits) ([⟨c.entry, {}⟩], {}) (c.enumerate limits) := by
  let nothing : Enumeration := {}
  have hvisits : nothing.iterations + limits.maxIterations = limits.maxIterations :=
    Nat.zero_add _
  have hroom : nothing.routes.length + limits.maxPaths = limits.maxPaths := Nat.zero_add _
  exact explore_ends hvisits hroom

/-! ### The check -/

theorem defines_iff_mem_keys {id : String} : c.defines id ↔ id ∈ c.definition.nodes.keys := by
  constructor
  · intro h
    obtain ⟨node, hnode⟩ := Option.isSome_iff_exists.1 h
    exact Table.mem_keys_of_get?_eq_some hnode
  · intro h
    obtain ⟨entry, hentry, rfl⟩ := List.mem_map.1 h
    exact Table.contains_of_mem hentry

/-- Only defined nodes have successors. -/
theorem defines_of_mem_successors {id next : String} (h : next ∈ c.successors id) :
    c.defines id := by
  rw [successors] at h
  split at h
  · cases h
  all_goals
    next hnode => exact Option.isSome_iff_exists.2 ⟨_, hnode⟩

/-- A chart passes the check if and only if all successors are defined. -/
theorem checkReferences_eq_ok_iff :
    c.checkReferences = .ok () ↔ ∀ id, ∀ next ∈ c.successors id, c.defines next := by
  have hnone : c.checkReferences = .ok () ↔ c.danglingReference? = none := by
    rw [checkReferences]
    cases c.danglingReference? <;> simp
  rw [hnone, danglingReference?, List.findSome?_eq_none_iff]
  constructor
  · intro h id next hnext
    have hid := defines_iff_mem_keys.1 (defines_of_mem_successors hnext)
    simpa using List.find?_eq_none.1 (Option.map_eq_none_iff.1 (h id hid)) next hnext
  · intro h id _
    rw [Option.map_eq_none_iff, List.find?_eq_none]
    intro next hnext
    simpa using h id next hnext

/-- What the check reports is a successor that is not defined. -/
theorem dangling_of_checkReferences {missing referrer : String}
    (h : c.checkReferences = .error (.danglingReference missing referrer)) :
    c.defines referrer ∧ missing ∈ c.successors referrer ∧ ¬ c.defines missing := by
  rw [checkReferences] at h
  split at h
  · next error herror =>
    cases h
    obtain ⟨id, hid, hfound⟩ := List.exists_of_findSome?_eq_some herror
    obtain ⟨target, htarget, heq⟩ := Option.map_eq_some_iff.1 hfound
    cases heq
    refine ⟨defines_iff_mem_keys.2 hid, List.mem_of_find?_eq_some htarget, ?_⟩
    simpa using List.find?_some htarget
  · cases h

/-! ### What search and walk come to -/

/-- A visit goes on to successors, since every branch of a node leads to one. -/
theorem mem_successors_of_visit {e : OpenEnd} {ends : List OpenEnd}
    (h : c.visit e = .onward ends) : ∀ next ∈ ends, next.node ∈ c.successors e.node := by
  rw [visit] at h
  split at h
  · cases h
    exact List.forall_mem_nil _
  · split at h
    · cases h
      exact List.forall_mem_nil _
    · cases h
    · next node _ hnode =>
      cases h
      intro next hnext
      obtain ⟨b, hb, rfl⟩ := List.mem_map.1 hnext
      exact target_mem_successors hnode hb

/-- A walk goes on to a successor, whatever the context and the hint choose. -/
theorem mem_successors_of_walkTurn {route route' : List String} {id next : String}
    (h : c.walkTurn ctx hint (route, id) = .inr (route', next)) : next ∈ c.successors id := by
  simp only [walkTurn] at h
  split at h
  · cases h
  · split at h
    · cases h
    · cases h
    · next node _ hnode =>
      split at h
      · cases h
      · next hnext =>
        cases h
        obtain ⟨b, hb, rfl, -⟩ := exists_branch_of_successor? hnext
        exact target_mem_successors hnode hb

/-- The open ends of a chart that passes the check are defined. At first there is the entry, and
every turn adds successors only. -/
theorem defines_of_search (hcheck : c.checkReferences = .ok ()) {stack : List OpenEnd}
    {found : Enumeration}
    (h : Loop.Reaches (c.searchTurn limits) ([⟨c.entry, {}⟩], {}) (stack, found)) :
    ∀ e ∈ stack, c.defines e.node := by
  refine h.preserves (P := fun state => ∀ e ∈ state.1, c.defines e.node) ?_ ?_
  · exact List.forall_mem_singleton.2 c.entry_defined
  · rintro ⟨stack, found⟩ ⟨stack', found'⟩ hstack hturn
    cases stack with
    | nil => cases hturn
    | cons e stack =>
      have hrest : ∀ e ∈ stack, c.defines e.node := (List.forall_mem_cons.1 hstack).2
      simp only [searchTurn] at hturn
      split at hturn
      · cases hturn
      · split at hturn
        · cases hturn
          exact hrest
        · next ends hvisit =>
          cases hturn
          intro next hnext
          rcases List.mem_append.1 hnext with hnext | hnext
          · exact checkReferences_eq_ok_iff.1 hcheck _ _ (mem_successors_of_visit hvisit next hnext)
          · exact hrest next hnext

/-- The nodes that a walk comes to are defined in a chart that passes the check. -/
theorem defines_of_walk (hcheck : c.checkReferences = .ok ()) {route : List String} {id : String}
    (h : Loop.Reaches (c.walkTurn ctx hint) ([], c.entry) (route, id)) : c.defines id := by
  refine h.preserves (P := fun state => c.defines state.2) ?_ ?_
  · exact c.entry_defined
  rintro ⟨route, id⟩ ⟨route', next⟩ - hturn
  exact checkReferences_eq_ok_iff.1 hcheck _ _ (mem_successors_of_walkTurn hturn)

end ProcedureChart.Chart

namespace ProcedureChart

/-- **The reference check is sound.** In a chart that passes it, every open end that the search for
routes has on its stack and every node that a walk comes to is defined, whatever the bounds, the
context and the hint; the search and the walk are the loops of which this is said. A reference that
the check reports is one from a defined node to a successor that is not defined. -/
theorem checkReferences_sound (c : Chart) :
    ((∀ limits, Loop.Ends (c.searchTurn limits) ([⟨c.entry, {}⟩], {}) (c.enumerate limits)) ∧
      ∀ ctx hint, Loop.Ends (c.walkTurn ctx hint) ([], c.entry) (c.walk ctx hint)) ∧
    (c.checkReferences = .ok () →
      (∀ limits stack found,
        Loop.Reaches (c.searchTurn limits) ([⟨c.entry, {}⟩], {}) (stack, found) →
          ∀ e ∈ stack, c.defines e.node) ∧
      ∀ ctx hint route id, Loop.Reaches (c.walkTurn ctx hint) ([], c.entry) (route, id) →
        c.defines id) ∧
    ∀ missing referrer, c.checkReferences = .error (.danglingReference missing referrer) →
      c.defines referrer ∧ missing ∈ c.successors referrer ∧ ¬ c.defines missing := by
  refine ⟨⟨c.enumerate_ends, c.walk_ends⟩, ?_, fun _ _ => Chart.dangling_of_checkReferences⟩
  intro hcheck
  constructor
  · intro limits stack found hreaches
    exact Chart.defines_of_search hcheck hreaches
  · intro ctx hint route id hreaches
    exact Chart.defines_of_walk hcheck hreaches

/-- A chart with a choice that the edge table settles, the second option to a node that is not
there. -/
def brokenChart : Chart where
  definition := {
    id := "broken"
    title := "A broken reference"
    problemInput := { schema := "broken", fields := [] }
    entryNode := "start"
    nodes := .ofList [
      ("start", .decision {
        options := [{ label := "On", value := "on" }, { label := "Off", value := "off" }] }),
      ("end", .terminal {})]
    edges := .ofList [("start", ["end", "lost"])] }
  diagram := {}
  entry_defined := by decide

/-- The detour passes the check, and its walk comes to a defined node; the other chart does not
pass. -/
theorem checkReferences_sound_detour :
    detourChart.checkReferences = .ok () ∧
      Loop.Reaches (detourChart.walkTurn {} none) ([], "choose") (["choose"], "end") ∧
      detourChart.defines "end" ∧
      brokenChart.checkReferences = .error (.danglingReference "lost" "start") ∧
      "lost" ∈ brokenChart.successors "start" ∧ ¬ brokenChart.defines "lost" := by
  have hcheck : detourChart.checkReferences = .ok () := by decide +kernel
  have hturn : detourChart.walkTurn {} none ([], "choose") = .inr (["choose"], "end") := by
    decide +kernel
  have hreaches : Loop.Reaches (detourChart.walkTurn {} none) ([], "choose") (["choose"], "end") :=
    Relation.ReflTransGen.single hturn
  have herror : brokenChart.checkReferences = .error (.danglingReference "lost" "start") := by
    decide +kernel
  obtain ⟨-, hmem, hundefined⟩ := (checkReferences_sound brokenChart).2.2 _ _ herror
  exact ⟨hcheck, hreaches, ((checkReferences_sound detourChart).2.1 hcheck).2 _ _ _ _ hreaches,
    herror, hmem, hundefined⟩

end ProcedureChart
