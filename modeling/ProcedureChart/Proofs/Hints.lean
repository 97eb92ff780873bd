import Mathlib.Data.List.Nodup
import ProcedureChart.Proofs.Replay

/-!
# Routes as hints

A hint guides along a route if, behind the first place of each node, it goes on to the node that
comes next on the route (`Chart.Guides`). A walk that is guided along the route of another walk in
the same context takes this route (`Chart.walk_of_guides`): answered and excluded decisions and
skips do not look at hints, and a learner's choice finds an option with the same target. A walk
comes to no node twice, so each node has one place on its route, and the route guides along itself,
by itself or within a longer hint (`walk_retraced`).
-/

namespace ProcedureChart

namespace Chart

variable {c : Chart} {ctx : Context} {hint : Option (List String)} {route guide : List String}

/-! ### Guides -/

/-- Whether a hint goes on from each node of a route to the next one. -/
def Guides (guide route : List String) : Prop :=
  ∀ id next, [id, next] <:+: route → following? guide id = some next

theorem Guides.tail {id : String} (h : Guides guide (id :: route)) : Guides guide route :=
  fun other next hpair => h other next (hpair.trans (List.suffix_cons id route).isInfix)

/-- A route without repetitions guides along itself within a longer hint, if none of its nodes
stands in front of it there. -/
theorem guides_append (before behind : List String) (hnodup : route.Nodup)
    (hbefore : ∀ id ∈ before, id ∉ route) : Guides (before ++ route ++ behind) route := by
  rintro id next ⟨front, rest, rfl⟩
  have hfront : id ∉ front := by
    intro hmem
    rw [List.append_assoc] at hnodup
    exact (List.nodup_append.1 hnodup).2.2 id hmem id List.mem_cons_self rfl
  have hid : id ∉ before ++ front := by
    intro hmem
    rcases List.mem_append.1 hmem with hmem | hmem
    · exact hbefore id hmem (by simp)
    · exact hfront hmem
  have hplace : following? (before ++ front ++ id :: next :: (rest ++ behind)) id = some next :=
    following?_append (rest ++ behind) hid
  simpa using hplace

/-! ### Guided walks -/

/-- A walk comes to no node twice, and to none that was seen before. -/
theorem nodup_of_walkFrom {steps : Nat} {seen : List String} {id : String}
    (h : c.walkFrom ctx hint steps seen id = some route) :
    route.Nodup ∧ ∀ other ∈ route, other ∉ seen := by
  induction steps generalizing seen id route with
  | zero => cases h
  | succ steps ih =>
    obtain ⟨hseen, ⟨t, -, rfl⟩ | ⟨node, next, rest, -, -, hrest, rfl⟩⟩ := walkFrom_cases h
    · exact ⟨List.nodup_singleton id, List.forall_mem_singleton.2 (by simpa using hseen)⟩
    · obtain ⟨hnodup, hnew⟩ := ih hrest
      refine ⟨List.nodup_cons.2 ⟨fun hmem => hnew id hmem List.mem_cons_self, hnodup⟩, ?_⟩
      refine List.forall_mem_cons.2 ⟨by simpa using hseen, fun other hother hmem => ?_⟩
      exact hnew other hother (List.mem_cons_of_mem id hmem)

/-- The rest of a walk is taken again under every hint that guides along it. -/
theorem walkFrom_of_guides {steps : Nat} {seen : List String} {id : String}
    (h : c.walkFrom ctx hint steps seen id = some route) (hguides : Guides guide route) :
    c.walkFrom ctx (some guide) steps seen id = some route := by
  induction steps generalizing seen id route with
  | zero => cases h
  | succ steps ih =>
    obtain ⟨hseen, ⟨t, hnode, rfl⟩ | ⟨node, next, rest, hnode, hnext, hrest, rfl⟩⟩ :=
      walkFrom_cases h
    · exact walkFrom_terminal hseen hnode
    · obtain ⟨tail, rfl⟩ := List.head?_eq_some_iff.1 (head?_of_walkFrom hrest)
      have hfollowing := hguides id next ⟨[], tail, rfl⟩
      rw [walkFrom_move hseen hnode (successor?_of_following hnext hfollowing),
        ih hrest hguides.tail]
      rfl

/-- A walk is taken again under every hint that guides along it. -/
theorem walk_of_guides (h : c.walk ctx hint = some route) (hguides : Guides guide route) :
    c.walk ctx (some guide) = some route :=
  walkFrom_of_guides h hguides

/-- The walk that is given the route of a walk as a hint takes the same route. -/
theorem walk_own_route (h : c.walk ctx hint = some route) :
    c.walk ctx (some route) = some route := by
  have hguides := guides_append [] [] (nodup_of_walkFrom h).1 fun _ => List.not_mem_nil.elim
  rw [List.nil_append, List.append_nil] at hguides
  exact walk_of_guides h hguides

end Chart

/-- **A route is a faithful hint**: the walk that is given the route of a walk as a hint takes the
same route in the same context, whatever hint was followed before, and it still does if more is
written behind the route, or in front of it without mentioning its nodes. -/
theorem walk_retraced (c : Chart) (ctx : Context) (hint : Option (List String))
    (route : List String) (h : c.walk ctx hint = some route) :
    c.walk ctx (some route) = some route ∧
      ∀ before behind, (∀ id ∈ before, id ∉ route) →
        c.walk ctx (some (before ++ route ++ behind)) = some route := by
  refine ⟨Chart.walk_own_route h, fun before behind hbefore => ?_⟩
  exact Chart.walk_of_guides h
    (Chart.guides_append before behind (Chart.nodup_of_walkFrom h).1 hbefore)

/-- The walk that a hint leads to the second option of the learner's choice, retraced by its route
alone and by a longer hint. -/
theorem walk_retraced_size :
    sizeChart.walk { problem := .ofList [("n", .number 12)] } (some ["how", "check"]) =
        some ["large", "digits", "how", "check", "end"] ∧
      sizeChart.walk { problem := .ofList [("n", .number 12)] }
          (some ["large", "digits", "how", "check", "end"]) =
        some ["large", "digits", "how", "check", "end"] ∧
      sizeChart.walk { problem := .ofList [("n", .number 12)] }
          (some ["start", "large", "digits", "how", "check", "end", "how", "end"]) =
        some ["large", "digits", "how", "check", "end"] := by
  have hwalk : sizeChart.walk { problem := .ofList [("n", .number 12)] } (some ["how", "check"]) =
      some ["large", "digits", "how", "check", "end"] := by decide +kernel
  obtain ⟨hsame, hwithin⟩ := walk_retraced sizeChart _ _ _ hwalk
  exact ⟨hwalk, hsame, hwithin ["start"] ["how", "end"] (by decide)⟩

end ProcedureChart
