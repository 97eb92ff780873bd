import ProcedureChart.Proofs.Lookups
import ProcedureChart.Proofs.Numeric.Comparison
import ProcedureChart.Proofs.SelectionOrder

/-!
# Distinct examples

Two examples repeat each other if they have one descriptor and equal values. `distinctExamples` are
the examples of a pool without repetitions. Grouping a pool and dropping the repetitions of each
group cuts this list into its descriptors: the groups hold the distinct examples, each of them once
(`perm_stock_groups`), and so does the whole order of a selection (`perm_selectionOrder`).
-/

namespace ProcedureChart

/-- Whether two examples have one descriptor and equal values. -/
def Example.repeats (e other : Example) : Bool :=
  e.descriptor == other.descriptor && e.values.equals other.values

theorem Example.repeats_comm (e other : Example) : e.repeats other = other.repeats e := by
  rw [repeats, repeats, Scope.equals_comm, BEq.comm]

/-- The examples of a pool without repetitions; the first of those that repeat each other stays. -/
def distinctExamples (pool : List Example) : List Example := pool.eraseDupsBy Example.repeats

/-! ### Lists without repetitions -/

section EraseDups

variable {α : Type}

theorem eraseDupsBy_sublist (r : α → α → Bool) : (l : List α) → (l.eraseDupsBy r).Sublist l
  | [] => .slnil
  | a :: l => by
    have hrest := eraseDupsBy_sublist r (l.filter fun b => r b a = false)
    rw [List.eraseDupsBy_cons]
    exact (hrest.trans List.filter_sublist).cons_cons a
termination_by l => l.length
decreasing_by exact Nat.lt_succ_of_le (List.length_filter_le _ _)

/-- No element that stays repeats one in front of it. -/
theorem pairwise_eraseDupsBy (r : α → α → Bool) :
    (l : List α) → (l.eraseDupsBy r).Pairwise fun a b => r b a = false
  | [] => .nil
  | a :: l => by
    have hrest := pairwise_eraseDupsBy r (l.filter fun b => r b a = false)
    rw [List.eraseDupsBy_cons, List.pairwise_cons]
    refine ⟨fun b hb => ?_, hrest⟩
    have hmem := (eraseDupsBy_sublist r _).subset hb
    exact of_decide_eq_true (List.mem_filter.1 hmem).2
termination_by l => l.length
decreasing_by exact Nat.lt_succ_of_le (List.length_filter_le _ _)

theorem nodup_eraseDups [BEq α] [LawfulBEq α] (l : List α) : l.eraseDups.Nodup :=
  (pairwise_eraseDupsBy (· == ·) l).imp fun h heq => by
    rw [heq, beq_self_eq_true] at h
    cases h

/-- Elements of one kind lose the same repetitions among themselves as in the whole list, if
elements of different kinds do not repeat each other. -/
theorem filter_eraseDupsBy {r r' : α → α → Bool} {p : α → Bool}
    (hsame : ∀ a b, p a → p b → r' b a = r b a) (hother : ∀ a b, ¬p a → p b → r b a = false) :
    (l : List α) → (l.eraseDupsBy r).filter p = (l.filter p).eraseDupsBy r'
  | [] => rfl
  | a :: l => by
    have hrest := filter_eraseDupsBy hsame hother (l.filter fun b => r b a = false)
    rw [List.eraseDupsBy_cons]
    by_cases ha : p a = true
    · rw [List.filter_cons_of_pos ha, hrest, List.filter_cons_of_pos ha, List.eraseDupsBy_cons,
        List.filter_filter, List.filter_filter]
      congr 2
      refine List.filter_congr fun b _ => ?_
      cases hb : p b with
      | false => rw [Bool.false_and, Bool.and_false]
      | true => rw [hsame a b ha hb, Bool.true_and, Bool.and_true]
    · rw [List.filter_cons_of_neg ha, hrest, List.filter_cons_of_neg ha, List.filter_filter]
      congr 1
      refine List.filter_congr fun b _ => ?_
      cases hb : p b with
      | false => rw [Bool.false_and]
      | true => rw [hother a b ha hb, Bool.true_and, decide_eq_true rfl]
termination_by l => l.length
decreasing_by exact Nat.lt_succ_of_le (List.length_filter_le _ _)

/-- A list is its elements of each kind, one kind after the other. Pools are grouped in this way,
and nothing is lost as long as every kind is listed once. -/
theorem perm_flatMap_filter {β : Type} [BEq β] [LawfulBEq β] (kind : α → β) {kinds : List β}
    (hnodup : kinds.Nodup) {l : List α} (hkinds : ∀ a ∈ l, kind a ∈ kinds) :
    (kinds.flatMap fun k => l.filter fun a => kind a == k).Perm l := by
  induction kinds generalizing l with
  | nil =>
    cases l with
    | nil => exact .nil
    | cons a l => cases hkinds a List.mem_cons_self
  | cons k kinds ih =>
    obtain ⟨hk, hnodup⟩ := List.nodup_cons.1 hnodup
    have hrest : (kinds.flatMap fun k => l.filter fun a => kind a == k).Perm
        (l.filter fun a => !(kind a == k)) := by
      have hmem : ∀ a ∈ l.filter (fun a => !(kind a == k)), kind a ∈ kinds := by
        intro a ha
        obtain ⟨ha, hne⟩ := List.mem_filter.1 ha
        refine (List.mem_cons.1 (hkinds a ha)).resolve_left fun heq => ?_
        rw [heq, beq_self_eq_true] at hne
        cases hne
      refine (List.Perm.of_eq (List.flatMap_congr fun k' hk' => ?_)).trans (ih hnodup hmem)
      rw [List.filter_filter]
      refine List.filter_congr fun a _ => ?_
      cases heq : kind a == k' with
      | false => rfl
      | true =>
        have hne : kind a ≠ k := fun h => hk (h ▸ eq_of_beq heq ▸ hk')
        rw [Bool.true_and, beq_false_of_ne hne, Bool.not_false]
    rw [List.flatMap_cons]
    exact (hrest.append_left _).trans (List.filter_append_perm _ l)

end EraseDups

namespace Group

/-! ### Groups -/

/-- With a table that goes by values, the problems that stay in a group are those that repeat none
seen before and none in front. -/
theorem distinct_byValues (seen : List Scope) (pool : List Example) :
    distinct .byValues seen pool =
      (pool.filter fun e => !seen.any fun w => w.equals e.values).eraseDupsBy
        fun e other => e.values.equals other.values := by
  induction pool generalizing seen with
  | nil => rfl
  | cons e rest ih =>
    rw [distinct]
    by_cases hseen : Lookup.byValues.finds seen e.values = true
    · have hany : (seen.any fun w => w.equals e.values) = true := hseen
      rw [if_pos hseen, ih, List.filter_cons_of_neg (by rw [hany]; decide)]
    · have hany : ¬(seen.any fun w => w.equals e.values) = true := hseen
      rw [if_neg hseen, ih,
        List.filter_cons_of_pos (by rwa [Bool.not_eq_true', ← Bool.not_eq_true]),
        List.eraseDupsBy_cons, List.filter_filter]
      congr 2
      refine List.filter_congr fun b _ => ?_
      rw [List.any_cons, Bool.not_or, Scope.equals_comm, Bool.decide_eq_false]

variable {tables : Tables} {pool : List Example}

/-- The groups of a pool, one for each descriptor that appears in it. -/
theorem perm_groups (tables : Tables) (pool : List Example) :
    (groups tables pool).Perm
      ((pool.map Example.descriptor).eraseDups.map fun d => ofPool tables d pool) := by
  refine ((List.mergeSort_perm _ _).map _).trans (.of_eq ?_)
  rw [List.map_map]
  exact List.map_id'' (fun _ => rfl) _

/-- The group of a descriptor holds the distinct examples of that descriptor. -/
theorem perm_ofPool (h : tables.ExactOn pool) (d : String) :
    (ofPool tables d pool).pool.Perm
      ((distinctExamples pool).filter fun e => e.descriptor == d) := by
  rw [ofPool_congr h (Tables.exactOn_byValues pool)]
  refine (perm_byMagnitude _).trans (.of_eq ?_)
  rw [Tables.byValues, distinct_byValues, distinctExamples]
  simp only [List.any_nil, Bool.not_false, List.filter_true]
  refine (filter_eraseDupsBy (fun a b ha hb => ?_) (fun a b ha hb => ?_) pool).symm
  · rw [Example.repeats, eq_of_beq ha, eq_of_beq hb, beq_self_eq_true, Bool.true_and]
  · rw [Example.repeats, eq_of_beq hb, Bool.and_eq_false_iff]
    exact .inl (beq_false_of_ne fun h => ha (h ▸ beq_self_eq_true _))

/-- The groups of a pool hold its distinct examples. -/
theorem perm_stock_groups (h : tables.ExactOn pool) :
    (stock (groups tables pool)).Perm (distinctExamples pool) := by
  have hkinds : ∀ e ∈ distinctExamples pool, e.descriptor ∈
      (pool.map Example.descriptor).eraseDups := fun e he =>
    List.mem_eraseDups.2 (List.mem_map_of_mem ((eraseDupsBy_sublist _ _).subset he))
  calc (stock (groups tables pool)).Perm
        (((pool.map Example.descriptor).eraseDups.map fun d => ofPool tables d pool).flatMap
          Group.pool) :=
        (perm_groups tables pool).flatMap_right _
    List.Perm _ ((pool.map Example.descriptor).eraseDups.flatMap fun d =>
        (distinctExamples pool).filter fun e => e.descriptor == d) := by
        rw [List.flatMap_map]
        exact List.Perm.flatMap_left _ fun d _ => perm_ofPool h d
    List.Perm _ (distinctExamples pool) := perm_flatMap_filter _ (nodup_eraseDups _) hkinds

/-- Padding without a bound gives all that is left. -/
theorem perm_padding (groups : List Group) :
    (padding (stock groups).length groups).Perm (stock groups) :=
  (subperm_padding _ groups).perm_of_length_le (Nat.le_of_eq (by rw [length_padding, Nat.min_self]))

end Group

/-! ### The order of a selection -/

variable {σ : Type} [RandomSource σ] {tables : Tables} {pool : List Example}

/-- The order of a selection goes through what the groups of the pool hold, each problem once. -/
theorem perm_selectionOrder_stock (tables : Tables) (pool : List Example) (s : σ) :
    (selectionOrder tables pool s).Perm (Group.stock (Group.groups tables pool)) :=
  ((Group.perm_padding _).append_left _).trans (Group.perm_firstRound _ _ s)

/-- The order of a selection goes through the distinct examples, each of them once. -/
theorem perm_selectionOrder (h : tables.ExactOn pool) (s : σ) :
    (selectionOrder tables pool s).Perm (distinctExamples pool) :=
  (perm_selectionOrder_stock tables pool s).trans (Group.perm_stock_groups h)

/-- No two examples in the order of a selection repeat each other. -/
theorem pairwise_selectionOrder (h : tables.ExactOn pool) (s : σ) :
    (selectionOrder tables pool s).Pairwise fun e other => e.repeats other = false := by
  refine (List.Perm.pairwise_iff (fun {e other} h => ?_) (perm_selectionOrder h s)).2 ?_
  · rwa [Example.repeats_comm]
  · exact (pairwise_eraseDupsBy _ pool).imp fun {e other} h => by rwa [Example.repeats_comm]

end ProcedureChart
