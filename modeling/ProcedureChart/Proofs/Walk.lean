import ProcedureChart.Chart.Walk
import ProcedureChart.Route.Branch

/-!
# Walks and their hints

What a walk does at a skip (`taken?_eq_some_some_iff`) and in one step (`walkFrom_cases`), and what
a hint has to do with where it goes. A hint only matters at decisions without an answer, and there
it only chooses among the options that lead to the node behind it. So a hint in which the node that
comes next follows a node does not change where the walk goes from there
(`successor?_of_following`).
-/

namespace ProcedureChart.Chart

variable {c : Chart} {ctx : Context} {hint : Option (List String)}

/-! ### Skips -/

/-- A skip is taken where the conditions of its branch hold. -/
theorem taken?_eq_some_some_iff {skip : Option Skip} {target : String} (id : String) :
    Skip.taken? skip ctx = some (some target) ↔
      ∃ b ∈ (skip.map (Branch.skipping id)).toList, b.target = target ∧
        ∀ k ∈ b.constraints, k.satisfied ctx := by
  cases skip with
  | none => simp [Skip.taken?]
  | some skip =>
    cases hv : skip.condition.eval ctx with
    | error error =>
      simp [Skip.taken?, Branch.skipping, Branch.skipConstraint, RouteConstraint.satisfied_iff, hv]
    | ok v =>
      cases htruthy : v.truthy <;>
        simp [Skip.taken?, Branch.skipping, Branch.skipConstraint, RouteConstraint.satisfied_iff,
          RouteConstraint.admits, hv, htruthy]

/-- A skip is passed by where the conditions of staying hold. -/
theorem taken?_eq_some_none_iff {skip : Option Skip} (id : String) :
    Skip.taken? skip ctx = some none ↔ ∀ k ∈ Branch.notSkipping id skip, k.satisfied ctx := by
  cases skip with
  | none => simp [Skip.taken?, Branch.notSkipping]
  | some skip =>
    cases hv : skip.condition.eval ctx with
    | error error =>
      simp [Skip.taken?, Branch.notSkipping, Branch.skipConstraint, RouteConstraint.satisfied_iff,
        hv]
    | ok v =>
      cases htruthy : v.truthy <;>
        simp [Skip.taken?, Branch.notSkipping, Branch.skipConstraint, RouteConstraint.satisfied_iff,
          RouteConstraint.admits, hv, htruthy]

/-! ### One step -/

/-- A walk ends at a terminal. -/
theorem walkFrom_terminal {steps : Nat} {seen : List String} {id : String} {t : Terminal}
    (hseen : seen.contains id = false) (hnode : c.node? id = some (.terminal t)) :
    c.walkFrom ctx hint (steps + 1) seen id = some [id] := by
  simp only [walkFrom, hseen, hnode, Bool.false_eq_true, if_false]

/-- At a node with a successor a walk goes on to it. -/
theorem walkFrom_move {steps : Nat} {seen : List String} {id next : String} {node : Node}
    (hseen : seen.contains id = false) (hnode : c.node? id = some node)
    (hnext : c.successor? id node ctx hint = some next) :
    c.walkFrom ctx hint (steps + 1) seen id =
      (c.walkFrom ctx hint steps (id :: seen) next).map (id :: ·) := by
  cases node with
  | terminal t => cases hnext
  | instruction | decision | checkpoint | milestone | embellishment =>
    simp only [walkFrom, hseen, hnode, hnext, Bool.false_eq_true, if_false]

/-- A walk that takes a route comes to a node it has not seen, and there it has arrived or goes on
to the successor. -/
theorem walkFrom_cases {steps : Nat} {seen : List String} {id : String} {route : List String}
    (h : c.walkFrom ctx hint (steps + 1) seen id = some route) :
    seen.contains id = false ∧
      ((∃ t, c.node? id = some (.terminal t) ∧ route = [id]) ∨
        ∃ node next rest, c.node? id = some node ∧ c.successor? id node ctx hint = some next ∧
          c.walkFrom ctx hint steps (id :: seen) next = some rest ∧ route = id :: rest) := by
  rw [walkFrom] at h
  split at h
  · cases h
  · next hseen =>
    refine ⟨Bool.eq_false_iff.2 hseen, ?_⟩
    split at h
    · cases h
    · next t hnode => exact .inl ⟨t, hnode, (Option.some.inj h).symm⟩
    · next node _ hnode =>
      split at h
      · cases h
      · next next hnext =>
        obtain ⟨rest, hrest, rfl⟩ := Option.map_eq_some_iff.1 h
        exact .inr ⟨node, next, rest, hnode, hnext, hrest, rfl⟩

/-- A route begins with the node the walk comes to. -/
theorem head?_of_walkFrom {steps : Nat} {seen : List String} {id : String} {route : List String}
    (h : c.walkFrom ctx hint steps seen id = some route) : route.head? = some id := by
  cases steps with
  | zero => cases h
  | succ steps =>
    obtain ⟨-, ⟨t, -, rfl⟩ | ⟨node, next, rest, -, -, -, rfl⟩⟩ := walkFrom_cases h
    · rfl
    · rfl

/-! ### Hints -/

/-- What follows a node that occurs nowhere before. -/
theorem following?_append {before : List String} {id next : String} (rest : List String)
    (h : id ∉ before) : following? (before ++ id :: next :: rest) id = some next := by
  have hdrop : (before ++ id :: next :: rest).dropWhile (fun other => other != id) =
      id :: next :: rest := by
    rw [List.dropWhile_append_of_pos]
    · simp
    · intro other hother
      exact bne_iff_ne.2 fun heq => h (heq ▸ hother)
  rw [following?, hdrop]

/-- An option that leads somewhere is found, or another one that leads there as well. The first of
them is found. -/
theorem exists_optionTo? {id : String} {d : Decision} {index : Nat} {o : DecisionOption}
    {target : String} (ho : d.options[index]? = some o)
    (htarget : c.optionTarget? id index o = some target) :
    ∃ o' index', c.optionTo? id d target = some (o', index') ∧ d.options[index']? = some o' ∧
      c.optionTarget? id index' o' = some target := by
  have hmem : (o, index) ∈ d.options.zipIdx := List.mem_zipIdx_iff_getElem?.2 ho
  cases hfind : c.optionTo? id d target with
  | none =>
    have := List.find?_eq_none.1 hfind _ hmem
    simp [htarget] at this
  | some found =>
    obtain ⟨o', index'⟩ := found
    refine ⟨o', index', rfl, ?_, ?_⟩
    · exact List.mem_zipIdx_iff_getElem?.1 (List.mem_of_find?_eq_some hfind)
    · simpa using List.find?_some hfind

/-- A hint in which the successor of a node follows the node does not change the successor. It
matters only where a decision has no answer, and there it chooses an option with the same target. -/
theorem successor?_of_following {id next : String} {node : Node} {route : List String}
    (h : c.successor? id node ctx hint = some next) (hroute : following? route id = some next) :
    c.successor? id node ctx (some route) = some next := by
  cases node with
  | terminal t => cases h
  | instruction | milestone | embellishment | checkpoint => exact h
  | decision d =>
    simp only [successor?, decisionSuccessor?] at h ⊢
    rcases htaken : Skip.taken? d.skip? ctx with _ | _ | target
    · rw [htaken] at h
      cases h
    · rw [htaken] at h
      simp only [Option.bind_eq_bind, Option.bind_eq_some_iff, chosenOption?] at h ⊢
      obtain ⟨index, hindex, o, ho, htarget⟩ := h
      by_cases hexcluded : d.excludeFromExampleStructure = true
      · exact ⟨index, by rwa [if_pos hexcluded] at hindex ⊢, o, ho, htarget⟩
      · rw [if_neg hexcluded] at hindex ⊢
        cases hanswer : d.correctAnswer with
        | some answer =>
          rw [hanswer] at hindex
          exact ⟨index, hindex, o, ho, htarget⟩
        | none =>
          -- the hint chooses an option with the same target
          obtain ⟨o', index', hfound, ho', htarget'⟩ := exists_optionTo? ho htarget
          refine ⟨index', ?_, o', ho', htarget'⟩
          simp [hintedOption?, hroute, hfound]
    · rw [htaken] at h
      exact h

end ProcedureChart.Chart
