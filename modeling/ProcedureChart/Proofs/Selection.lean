import Mathlib.Data.List.Perm.Basic
import ProcedureChart.Generate.Select

/-!
# What a selection is made of

Selection only moves examples around: each round takes problems out of the groups and leaves the
others there. So what a round picks together with what it leaves is a permutation of what there was
(`perm_firstRound`, `perm_paddingRound`), and everything selected comes from the pool
(`mem_of_mem_selectDiverse`).
-/

namespace ProcedureChart

namespace Group

/-- The problems of some groups, one group after the other. -/
def stock (groups : List Group) : List Example := groups.flatMap Group.pool

@[simp] theorem stock_cons (g : Group) (groups : List Group) :
    stock (g :: groups) = g.pool ++ stock groups := rfl

/-! ### Taking problems -/

/-- The problem taken and those left are the problems there were. -/
theorem perm_of_takeAt? {g g' : Group} {i : Nat} {e : Example} (h : g.takeAt? i = some (e, g')) :
    (e :: g'.pool).Perm g.pool := by
  rw [takeAt?, Option.map_eq_some_iff] at h
  obtain ⟨e', he, heq⟩ := h
  cases heq
  obtain ⟨hi, rfl⟩ := List.getElem?_eq_some_iff.1 he
  exact List.getElem_cons_eraseIdx_perm hi

theorem perm_of_takeReadable? {σ : Type} [RandomSource σ] {g g' : Group} {s : σ} {e : Example}
    (h : (g.takeReadable? s).1 = some (e, g')) : (e :: g'.pool).Perm g.pool := by
  rw [takeReadable?] at h
  split at h
  · cases h
  · exact perm_of_takeAt? h

/-- The problems of a group may stand in front of what was picked, or behind it. -/
theorem perm_pool_front (pool picked : List Example) (left : List Group) :
    (picked ++ (pool ++ stock left)).Perm (pool ++ (picked ++ stock left)) := by
  rw [← List.append_assoc, ← List.append_assoc]
  exact List.perm_append_comm.append_right _

/-- A pick from the first of some groups joins what was picked from the others. -/
theorem perm_pick {g g' : Group} {e : Example} {picked : List Example} {left rest : List Group}
    (htaken : (e :: g'.pool).Perm g.pool) (hrest : (picked ++ stock left).Perm (stock rest)) :
    ((e :: picked) ++ stock (g' :: left)).Perm (stock (g :: rest)) := by
  rw [stock_cons, stock_cons]
  calc ((e :: picked) ++ (g'.pool ++ stock left)).Perm (e :: (g'.pool ++ (picked ++ stock left))) :=
        (perm_pool_front g'.pool picked left).cons e
    List.Perm _ (g.pool ++ stock rest) := htaken.append hrest

/-- A group of which nothing is taken keeps its problems. -/
theorem perm_leave (g : Group) {picked : List Example} {left rest : List Group}
    (hrest : (picked ++ stock left).Perm (stock rest)) :
    (picked ++ stock (g :: left)).Perm (stock (g :: rest)) := by
  rw [stock_cons, stock_cons]
  calc (picked ++ (g.pool ++ stock left)).Perm (g.pool ++ (picked ++ stock left)) :=
        perm_pool_front g.pool picked left
    List.Perm _ (g.pool ++ stock rest) := hrest.append_left _

/-! ### Rounds -/

/-- What the first round picks and what it leaves are the problems of the groups. Nothing is lost
and nothing is picked twice. -/
theorem perm_firstRound {σ : Type} [RandomSource σ] (room : Nat) (groups : List Group) (s : σ) :
    ((firstRound room groups s).1.1 ++ stock (firstRound room groups s).1.2).Perm
      (stock groups) := by
  induction groups generalizing room s with
  | nil => cases room <;> exact .refl _
  | cons g rest ih =>
    cases room with
    | zero => exact .refl _
    | succ room =>
      have hrest := ih room (g.takeReadable? s).2
      simp only [firstRound]
      cases htaken : (g.takeReadable? s).1 with
      | none => exact perm_leave g hrest
      | some taken =>
        obtain ⟨e, g'⟩ := taken
        exact perm_pick (perm_of_takeReadable? htaken) hrest

/-- What a round of padding picks and what it leaves are the problems of the groups. -/
theorem perm_paddingRound (room : Nat) (groups : List Group) :
    ((paddingRound room groups).1 ++ stock (paddingRound room groups).2).Perm (stock groups) := by
  induction groups generalizing room with
  | nil => cases room <;> exact .refl _
  | cons g rest ih =>
    cases room with
    | zero => exact .refl _
    | succ room =>
      simp only [paddingRound]
      cases htaken : g.takeLarger? with
      | none => exact perm_leave g (ih (room + 1))
      | some taken =>
        obtain ⟨e, g'⟩ := taken
        exact perm_pick (perm_of_takeAt? htaken) (ih room)

/-- Padding picks some of the problems of the groups, each as often at most as it is there. The
rounds follow one another until one picks nothing or there is no room. -/
theorem subperm_padding (room : Nat) (groups : List Group) :
    (padding room groups).Subperm (stock groups) := by
  induction room using Nat.strongRecOn generalizing groups with
  | ind room ih =>
    cases room with
    | zero =>
      rw [padding]
      exact List.nil_subperm
    | succ room =>
      have hperm := perm_paddingRound (room + 1) groups
      rw [padding]
      split
      next picked left hround =>
        rw [hround] at hperm
        split
        · exact List.nil_subperm
        · next hpicked =>
          have hpos := List.length_pos_iff.2 fun heq => hpicked (List.isEmpty_iff.2 heq)
          have hleft := ih (room + 1 - picked.length) (by omega) left
          exact ((List.subperm_append_left _).2 hleft).trans hperm.subperm

/-! ### Groups -/

theorem mem_of_mem_distinct {lookup : Lookup} {seen : List Scope} {pool : List Example}
    {e : Example} (h : e ∈ distinct lookup seen pool) : e ∈ pool := by
  induction pool generalizing seen with
  | nil => exact h
  | cons other rest ih =>
    rw [distinct] at h
    split at h
    · exact List.mem_cons_of_mem _ (ih h)
    · rcases List.mem_cons.1 h with rfl | h
      · exact List.mem_cons_self
      · exact List.mem_cons_of_mem _ (ih h)

/-- Sorting by magnitude rearranges a pool. -/
theorem perm_byMagnitude (pool : List Example) : (byMagnitude pool).Perm pool := by
  have h := (List.mergeSort_perm (pool.map fun e => (Numeric.totalOrderKey e.magnitude, e))
    fun a b => a.1 ≤ b.1).map Prod.snd
  rwa [List.map_map, List.map_id''] at h
  exact fun _ => rfl

/-- The problems of the groups of a pool are problems of the pool. -/
theorem mem_of_mem_groups {tables : Tables} {pool : List Example} {g : Group} {e : Example}
    (hg : g ∈ groups tables pool) (he : e ∈ g.pool) : e ∈ pool := by
  simp only [groups, List.mem_map, List.mem_mergeSort] at hg
  obtain ⟨_, ⟨_, ⟨descriptor, -, rfl⟩, rfl⟩, rfl⟩ := hg
  have hdistinct := (perm_byMagnitude _).mem_iff.1 he
  exact List.mem_of_mem_filter (mem_of_mem_distinct hdistinct)

theorem mem_of_mem_stock_groups {tables : Tables} {pool : List Example} {e : Example}
    (h : e ∈ stock (groups tables pool)) : e ∈ pool := by
  obtain ⟨g, hg, he⟩ := List.mem_flatMap.1 h
  exact mem_of_mem_groups hg he

end Group

/-! ### The selection -/

/-- A selection picks problems of the groups of a pool, each as often at most as it is there. -/
theorem subperm_selectDiverse {σ : Type} [RandomSource σ] (pool : List Example) (count : Nat)
    (s : σ) (tables : Tables) :
    (selectDiverse pool count s tables).1.Subperm (Group.stock (Group.groups tables pool)) := by
  have hfirst := Group.perm_firstRound count (Group.groups tables pool) s
  have hpadding := Group.subperm_padding
    (count - (Group.firstRound count (Group.groups tables pool) s).1.1.length)
    (Group.firstRound count (Group.groups tables pool) s).1.2
  exact ((List.subperm_append_left _).2 hpadding).trans hfirst.subperm

/-- Whatever is selected comes from the pool. -/
theorem mem_of_mem_selectDiverse {σ : Type} [RandomSource σ] {pool : List Example} {count : Nat}
    {s : σ} {tables : Tables} {e : Example} (h : e ∈ (selectDiverse pool count s tables).1) :
    e ∈ pool :=
  Group.mem_of_mem_stock_groups ((subperm_selectDiverse pool count s tables).subset h)

end ProcedureChart
