import ProcedureChart.Proofs.Listing

/-!
# The enumeration is a bounded listing

The search keeps its open ends on a stack. What is still to come from a stack is the listing of
each of its ends in turn (`pending`), and one visit either moves the first pending route to the
routes found or replaces an end by ends that have the same routes pending. So whenever the search
stops, the routes found and those pending make up the listing from the entry node
(`exists_explored`): the enumeration is a prefix of the listing, and all of it unless a bound was
reached.
-/

namespace ProcedureChart

namespace Chart

/-- The routes that are still to come from a stack of open ends. -/
def pending (c : Chart) (stack : List OpenEnd) : List Route :=
  stack.flatMap fun e => c.listing e.route e.node

@[simp] theorem pending_nil (c : Chart) : c.pending [] = [] := rfl

theorem pending_cons (c : Chart) (e : OpenEnd) (stack : List OpenEnd) :
    c.pending (e :: stack) = c.listing e.route e.node ++ c.pending stack := rfl

theorem pending_append (c : Chart) (ends stack : List OpenEnd) :
    c.pending (ends ++ stack) = c.pending ends ++ c.pending stack :=
  List.flatMap_append

/-! ### One visit -/

/-- A visit that arrives finds the one route of its open end. -/
theorem listing_of_arrived {c : Chart} {e : OpenEnd} {route : Route}
    (h : c.visit e = .arrived route) : c.listing e.route e.node = [route] := by
  rw [visit] at h
  split at h
  · cases h
  · next hnew =>
    split at h
    · cases h
    · next n hnode =>
      obtain rfl := Visit.arrived.inj h
      exact listing_terminal hnew hnode
    · cases h

/-- A visit that goes on leaves open ends with the same routes pending. It goes on where there is
nothing to list, at a node that was visited or that is not defined, and where the node branches. -/
theorem listing_of_onward {c : Chart} {e : OpenEnd} {ends : List OpenEnd}
    (h : c.visit e = .onward ends) : c.listing e.route e.node = c.pending ends := by
  rw [visit] at h
  split at h
  · next hold =>
    obtain rfl := Visit.onward.inj h
    exact listing_of_mem hold
  · next hnew =>
    split at h
    · next hnode =>
      obtain rfl := Visit.onward.inj h
      exact listing_of_undefined hnode
    · cases h
    · next node hterminal hnode =>
      obtain rfl := Visit.onward.inj h
      have hkind : node.kind ≠ .terminal := by
        cases node with
        | terminal n => exact absurd rfl (hterminal n)
        | instruction | decision | checkpoint | milestone | embellishment => exact nofun
      rw [listing_branches hnew hnode hkind, pending, List.flatMap_map]

/-! ### The whole search -/

section Equations

variable (c : Chart) (visits room : Nat) (e : OpenEnd) (stack : List OpenEnd) (done : Enumeration)

theorem explore_nil : c.explore visits room [] done = done := by
  cases visits <;> rfl

theorem explore_no_visits : c.explore 0 room (e :: stack) done = { done with truncated := true } :=
  rfl

theorem explore_no_room :
    c.explore (visits + 1) 0 (e :: stack) done = { done with truncated := true } := rfl

theorem explore_arrived {e : OpenEnd} {route : Route} (h : c.visit e = .arrived route) :
    c.explore (visits + 1) (room + 1) (e :: stack) done =
      c.explore visits room stack
        { done with routes := route :: done.routes, iterations := done.iterations + 1 } := by
  rw [explore, h]

theorem explore_onward {e : OpenEnd} {ends : List OpenEnd} (h : c.visit e = .onward ends) :
    c.explore (visits + 1) (room + 1) (e :: stack) done =
      c.explore visits (room + 1) (ends ++ stack)
        { done with iterations := done.iterations + 1 } := by
  rw [explore, h]

end Equations

/-- The result of working off a stack: the routes `found` are the first of those pending, and
`rest` is what was left when the search ended. -/
structure Explored (c : Chart) (visits room : Nat) (stack : List OpenEnd)
    (done result : Enumeration) (found rest : List Route) : Prop where
  pending_eq : c.pending stack = found ++ rest
  routes_eq : result.routes = found.reverse ++ done.routes
  length_le : found.length ≤ room
  iterations_le : result.iterations ≤ done.iterations + visits
  complete : result.truncated = false → rest = []
  stopped : result.truncated = true → done.truncated = true ∨ found.length = room ∨
    result.iterations = done.iterations + visits

/-- **The search invariant**: wherever the search ends, what it has found and what it has left are
the routes that were pending. A route that is complete is the first of the pending ones, and a node
that is opened has its branches put where it was, so the order never changes. -/
theorem exists_explored (c : Chart) (visits room : Nat) (stack : List OpenEnd)
    (done : Enumeration) :
    ∃ found rest,
      c.Explored visits room stack done (c.explore visits room stack done) found rest := by
  induction visits generalizing room stack done with
  | zero =>
    cases stack with
    | nil =>
      rw [explore_nil]
      exact ⟨[], [], rfl, rfl, Nat.zero_le _, Nat.le_add_right _ _, fun _ => rfl, .inl⟩
    | cons e stack =>
      -- no visits left: everything stays pending
      rw [explore_no_visits]
      exact ⟨[], _, rfl, rfl, Nat.zero_le _, Nat.le_refl _, nofun, fun _ => .inr (.inr rfl)⟩
  | succ visits ih =>
    cases stack with
    | nil =>
      rw [explore_nil]
      exact ⟨[], [], rfl, rfl, Nat.zero_le _, Nat.le_add_right _ _, fun _ => rfl, .inl⟩
    | cons e stack =>
      cases room with
      | zero =>
        -- no room left, so nothing was found either
        rw [explore_no_room]
        exact ⟨[], _, rfl, rfl, Nat.le_refl _, Nat.le_add_right _ _, nofun,
          fun _ => .inr (.inl rfl)⟩
      | succ room =>
        cases hvisit : c.visit e with
        | arrived route =>
          -- the route moves from the pending ones to those found
          rw [explore_arrived _ _ _ _ _ hvisit]
          obtain ⟨found, rest, h⟩ := ih room stack
            { done with routes := route :: done.routes, iterations := done.iterations + 1 }
          refine ⟨route :: found, rest, ?_, ?_, ?_, ?_, h.complete, ?_⟩
          · rw [pending_cons, listing_of_arrived hvisit, h.pending_eq]
            rfl
          · rw [h.routes_eq, List.reverse_cons, List.append_assoc]
            rfl
          · exact Nat.succ_le_succ h.length_le
          · exact Nat.le_trans h.iterations_le (Nat.le_of_eq (Nat.add_right_comm _ _ _))
          · intro htruncated
            rcases h.stopped htruncated with hdone | hroom | hvisits
            · exact .inl hdone
            · exact .inr (.inl (congrArg Nat.succ hroom))
            · exact .inr (.inr (hvisits.trans (Nat.add_right_comm _ _ _)))
        | onward ends =>
          -- the same routes stay pending
          rw [explore_onward _ _ _ _ _ hvisit]
          obtain ⟨found, rest, h⟩ := ih (room + 1) (ends ++ stack)
            { done with iterations := done.iterations + 1 }
          refine ⟨found, rest, ?_, h.routes_eq, h.length_le, ?_, h.complete, ?_⟩
          · rw [pending_cons, listing_of_onward hvisit, ← pending_append, h.pending_eq]
          · exact Nat.le_trans h.iterations_le (Nat.le_of_eq (Nat.add_right_comm _ _ _))
          · intro htruncated
            rcases h.stopped htruncated with hdone | hroom | hvisits
            · exact .inl hdone
            · exact .inr (.inl hroom)
            · exact .inr (.inr (hvisits.trans (Nat.add_right_comm _ _ _)))

/-! ### The enumeration -/

theorem pending_entry (c : Chart) : c.pending [⟨c.entry, {}⟩] = c.listing {} c.entry := by
  rw [pending_cons, pending_nil, List.append_nil]

/-- An enumeration is what comes of working off the entry node. -/
theorem exists_explored_entry (c : Chart) (limits : Limits) :
    ∃ rest, c.Explored limits.maxIterations limits.maxPaths [⟨c.entry, {}⟩] {}
      (c.explore limits.maxIterations limits.maxPaths [⟨c.entry, {}⟩] {})
      (c.enumerate limits).routes rest := by
  obtain ⟨found, rest, h⟩ :=
    exists_explored c limits.maxIterations limits.maxPaths [⟨c.entry, {}⟩] {}
  have hfound : (c.enumerate limits).routes = found := by
    rw [enumerate, h.routes_eq, List.append_nil, List.reverse_reverse]
  exact ⟨rest, hfound ▸ h⟩

/-- Enumerated routes are listed. -/
theorem mem_listing_of_mem_enumerate {c : Chart} {limits : Limits} {r : Route}
    (h : r ∈ (c.enumerate limits).routes) : r ∈ c.listing {} c.entry := by
  obtain ⟨rest, hexplored⟩ := c.exists_explored_entry limits
  rw [← pending_entry, hexplored.pending_eq]
  exact List.mem_append_left _ h

/-- An enumeration that was not ended by a bound is the whole listing. -/
theorem enumerate_of_not_truncated {c : Chart} {limits : Limits}
    (htruncated : (c.enumerate limits).truncated = false) :
    (c.enumerate limits).routes = c.listing {} c.entry := by
  obtain ⟨rest, h⟩ := c.exists_explored_entry limits
  rw [← pending_entry, h.pending_eq, h.complete htruncated, List.append_nil]

/-- **The enumeration is a bounded listing**: whatever the bounds, the routes enumerated are the
first ones of the listing, and all of them if the search was not truncated; neither bound is ever
exceeded, and the search is truncated only at a bound. -/
theorem enumerate_isPrefix_listing (c : Chart) (limits : Limits) :
    (c.enumerate limits).routes <+: c.listing {} c.entry ∧
      ((c.enumerate limits).truncated = false →
        (c.enumerate limits).routes = c.listing {} c.entry) ∧
      (c.enumerate limits).routes.length ≤ limits.maxPaths ∧
      (c.enumerate limits).iterations ≤ limits.maxIterations ∧
      ((c.enumerate limits).truncated = true →
        (c.enumerate limits).routes.length = limits.maxPaths ∨
          (c.enumerate limits).iterations = limits.maxIterations) := by
  obtain ⟨rest, h⟩ := c.exists_explored_entry limits
  refine ⟨⟨rest, ?_⟩, enumerate_of_not_truncated, h.length_le, ?_, fun htruncated => ?_⟩
  · rw [← pending_entry, h.pending_eq]
  · exact Nat.le_trans h.iterations_le (Nat.le_of_eq (Nat.zero_add _))
  · rcases h.stopped htruncated with hdone | hroom | hvisits
    · cases hdone
    · exact .inl hroom
    · exact .inr (hvisits.trans (Nat.zero_add _))

end Chart

end ProcedureChart
