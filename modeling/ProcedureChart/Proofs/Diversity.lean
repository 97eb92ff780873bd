import ProcedureChart.Proofs.Distinct

/-!
# Diverse selections

What a selection gives is settled for every pool, every count and every source of draws: as many of
the distinct examples as were asked for, the first ones from different groups, and the groups in the
order of their least complexity. The draws only decide which example of a group stands for it. The
order of the groups is that of a stable sort, so that groups of one complexity keep the order in
which the pool first mentions them.
-/

namespace ProcedureChart

/-! ### The order of complexities -/

namespace Complexity

theorem le_iff {a b : Complexity} : a.le b ↔
    a.structural < b.structural ∨ a.structural = b.structural ∧ a.length ≤ b.length := by
  rw [le, Bool.or_eq_true, Bool.and_eq_true, decide_eq_true_iff, decide_eq_true_iff, beq_iff_eq]

theorem le_refl (a : Complexity) : a.le a := le_iff.2 (.inr ⟨rfl, Nat.le_refl _⟩)

theorem le_trans (a b c : Complexity) (hab : a.le b) (hbc : b.le c) : a.le c := by
  rw [le_iff] at *
  omega

theorem le_total (a b : Complexity) : (a.le b || b.le a) = true := by
  rw [Bool.or_eq_true, le_iff, le_iff]
  omega

end Complexity

/-! ### Stable sorting -/

section Stable

variable {α : Type}

/-- Elements that a stable sort does not tell apart keep the relation in which they stood. To see
it, the elements are sorted together with their places. -/
theorem pairwise_mergeSort_stable {le : α → α → Bool} {before : α → α → Prop} {l : List α}
    (htrans : ∀ a b c, le a b → le b c → le a c) (htotal : ∀ a b, le a b || le b a)
    (hbefore : l.Pairwise before) :
    (l.mergeSort le).Pairwise fun a b => le a b ∧ (le b a → before a b) := by
  -- sort the elements together with their places
  have hsorted := List.pairwise_mergeSort (List.zipIdxLE_trans htrans)
    (List.zipIdxLE_total htotal) l.zipIdx
  have hplaces : (l.zipIdx.mergeSort (List.zipIdxLE le)).Pairwise fun a b => a.2 ≠ b.2 := by
    have hnodup : (l.zipIdx.map Prod.snd).Nodup := by
      rw [List.zipIdx_map_snd]
      exact List.nodup_range'
    exact List.pairwise_map.1 (((List.mergeSort_perm _ _).map _).nodup_iff.2 hnodup)
  rw [← List.mergeSort_zipIdx, List.pairwise_map]
  refine (hsorted.and hplaces).imp_of_mem fun {a b} ha hb h => ?_
  obtain ⟨hle, hne⟩ := h
  obtain ⟨ha, heqa⟩ := List.getElem?_eq_some_iff.1
    (List.mem_zipIdx_iff_getElem?.1 (List.mem_mergeSort.1 ha))
  obtain ⟨hb, heqb⟩ := List.getElem?_eq_some_iff.1
    (List.mem_zipIdx_iff_getElem?.1 (List.mem_mergeSort.1 hb))
  rw [List.zipIdxLE] at hle
  by_cases hab : le a.1 b.1 = true
  · refine ⟨hab, fun hba => ?_⟩
    rw [if_pos hab, if_pos hba, decide_eq_true_iff] at hle
    rw [← heqa, ← heqb]
    exact List.pairwise_iff_getElem.1 hbefore _ _ ha hb (Nat.lt_of_le_of_ne hle hne)
  · rw [if_neg hab] at hle
    cases hle

end Stable

/-! ### First appearances -/

section Appearance

variable {α : Type} [BEq α] [LawfulBEq α]

/-- Leaving out other elements does not change which of two comes first, so an order that is seen in
a part is one of the whole. -/
theorem idxOf_lt_of_filter {p : α → Bool} {a b : α} (ha : p a) (hb : p b) {l : List α}
    (h : (l.filter p).idxOf a < (l.filter p).idxOf b) : l.idxOf a < l.idxOf b := by
  induction l with
  | nil => exact h
  | cons c l ih =>
    by_cases hc : p c = true
    · rw [List.filter_cons_of_pos hc, List.idxOf_cons, List.idxOf_cons] at h
      rw [List.idxOf_cons, List.idxOf_cons]
      cases hca : c == a <;> cases hcb : c == b <;> rw [hca, hcb] at h
      · exact Nat.succ_lt_succ (ih (Nat.lt_of_succ_lt_succ h))
      · cases h
      · exact Nat.succ_pos _
      · cases h
    · have hne : ∀ d, p d → (c == d) = false := fun d hd => beq_false_of_ne fun h => hc (h ▸ hd)
      rw [List.filter_cons_of_neg hc] at h
      rw [List.idxOf_cons, List.idxOf_cons, hne a ha, hne b hb]
      exact Nat.succ_lt_succ (ih h)

/-- Without repetitions, elements stand in the order of their first appearance. The recursion goes
to the list without the first element, wherever that occurs. -/
theorem pairwise_idxOf_eraseDups : (l : List α) →
    l.eraseDups.Pairwise fun a b => l.idxOf a < l.idxOf b
  | [] => .nil
  | a :: l => by
    have hrest := pairwise_idxOf_eraseDups (l.filter fun b => !b == a)
    have hmem : ∀ b ∈ (l.filter fun b => !b == a).eraseDups, (!b == a) = true := fun b hb =>
      (List.mem_filter.1 (List.mem_eraseDups.1 hb)).2
    have hne : ∀ b, (!b == a) = true → (a == b) = false := fun b hb => by
      rwa [BEq.comm, ← Bool.not_eq_true']
    rw [List.eraseDups_cons, List.pairwise_cons]
    refine ⟨fun b hb => ?_, hrest.imp_of_mem fun {b c} hb hc h => ?_⟩
    · rw [List.idxOf_cons_self, List.idxOf_cons, hne b (hmem b hb)]
      exact Nat.succ_pos _
    · rw [List.idxOf_cons, List.idxOf_cons, hne b (hmem b hb), hne c (hmem c hc)]
      exact Nat.succ_lt_succ
        (idxOf_lt_of_filter (p := fun b => !b == a) (hmem b hb) (hmem c hc) h)
termination_by l => l.length
decreasing_by exact Nat.lt_succ_of_le (List.length_filter_le _ _)

end Appearance

/-! ### Rankings -/

/-- The least complexity of the distinct examples of a descriptor. -/
structure IsLeast (pool : List Example) (d : String) (c : Complexity) : Prop where
  attained : ∃ e ∈ distinctExamples pool, e.descriptor = d ∧ e.complexity = c
  le : ∀ e ∈ distinctExamples pool, e.descriptor = d → c.le e.complexity

/-- Whether the examples of one descriptor come before those of another: their least complexity is
smaller, or it is the same and the pool mentions them first. -/
def Precedes (pool : List Example) (d d' : String) : Prop :=
  ∃ c c', IsLeast pool d c ∧ IsLeast pool d' c' ∧ c.le c' ∧
    (c = c' → (pool.map Example.descriptor).idxOf d < (pool.map Example.descriptor).idxOf d')

/-- What a selection of `count` examples from a pool has to be. -/
structure IsDiverse (pool : List Example) (count : Nat) (selected : List Example) : Prop where
  /-- there are as many as there can be -/
  length : selected.length = min count (distinctExamples pool).length
  /-- all are taken from the pool, each as often at most as it is there -/
  subperm : selected.Subperm pool
  /-- nothing is selected twice -/
  distinct : selected.Pairwise fun e other => e.repeats other = false
  /-- as long as there are descriptors, the next example is of another one -/
  spread : ((selected.take (min count (pool.map Example.descriptor).eraseDups.length)).map
    Example.descriptor).Nodup
  /-- and these are the first ones of the descriptors of the pool in their order -/
  ranked : ∃ ranking : List String, ranking.Perm (pool.map Example.descriptor).eraseDups ∧
    ranking.Pairwise (Precedes pool) ∧
    (selected.take (min count ranking.length)).map Example.descriptor =
      ranking.take (min count ranking.length)

namespace Group

variable {σ : Type} [RandomSource σ]

/-! ### Groups of a pool -/

theorem descriptor_of_mem_groups {tables : Tables} {pool : List Example} {g : Group}
    (hg : g ∈ groups tables pool) : ∀ e ∈ g.pool, e.descriptor = g.descriptor := by
  intro e he
  obtain ⟨d, -, rfl⟩ := exists_of_mem_groups hg
  exact eq_of_beq (List.mem_filter.1 (mem_of_mem_distinct ((perm_byMagnitude _).mem_iff.1 he))).2

/-- The first round gives one example of each group, in the order of the groups. -/
theorem map_descriptor_firstRound {groups : List Group} (hgroups : ∀ g ∈ groups, g.pool ≠ [])
    (hdescriptor : ∀ g ∈ groups, ∀ e ∈ g.pool, e.descriptor = g.descriptor) (s : σ) :
    (firstRound groups.length groups s).1.1.map Example.descriptor =
      groups.map Group.descriptor := by
  induction groups generalizing s with
  | nil => rfl
  | cons g rest ih =>
    obtain ⟨e, g', htaken⟩ := takeReadable?_eq_some (hgroups g List.mem_cons_self) s
    have he := (perm_of_takeReadable? htaken).subset List.mem_cons_self
    have hrest := ih (fun g hg => hgroups g (List.mem_cons_of_mem _ hg))
      (fun g hg => hdescriptor g (List.mem_cons_of_mem _ hg))
    rw [List.length_cons, firstRound_succ_cons rest.length rest htaken, List.map_cons,
      List.map_cons, hrest, hdescriptor g List.mem_cons_self e he]

/-! ### The least complexity of a group -/

/-- A running minimum is below where it starts and below everything it passes, and it is one of
these. -/
theorem foldl_least (rest : List Example) (best : Complexity) :
    let least := rest.foldl (fun best e => if best.le e.complexity then best else e.complexity) best
    least.le best ∧ (∀ e ∈ rest, least.le e.complexity) ∧
      (least = best ∨ ∃ e ∈ rest, e.complexity = least) := by
  induction rest generalizing best with
  | nil => exact ⟨Complexity.le_refl best, nofun, .inl rfl⟩
  | cons e rest ih =>
    rw [List.foldl_cons]
    obtain ⟨hbest, hrest, hattained⟩ := ih (if best.le e.complexity then best else e.complexity)
    by_cases hle : best.le e.complexity = true
    · rw [if_pos hle] at hbest hrest hattained ⊢
      refine ⟨hbest, List.forall_mem_cons.2 ⟨Complexity.le_trans _ _ _ hbest hle, hrest⟩, ?_⟩
      exact hattained.imp_right fun ⟨e, he, heq⟩ => ⟨e, List.mem_cons_of_mem _ he, heq⟩
    · have hge := (Bool.or_eq_true _ _ ▸ Complexity.le_total best e.complexity).resolve_left hle
      rw [if_neg hle] at hbest hrest hattained ⊢
      refine ⟨Complexity.le_trans _ _ _ hbest hge, List.forall_mem_cons.2 ⟨hbest, hrest⟩, .inr ?_⟩
      rcases hattained with heq | ⟨e, he, heq⟩
      · exact ⟨e, List.mem_cons_self, heq.symm⟩
      · exact ⟨e, List.mem_cons_of_mem _ he, heq⟩

/-- The complexity by which a group is ordered is the least one among its examples, and one of them
has it. It is the least of the pool with this label, since a group misses duplicates only. -/
theorem simplest_isLeast {tables : Tables} {pool : List Example} (h : tables.ExactOn pool)
    {g : Group} (hg : g ∈ groups tables pool) : IsLeast pool g.descriptor g.simplest := by
  obtain ⟨d, -, rfl⟩ := exists_of_mem_groups hg
  have hmem : ∀ e, e ∈ (ofPool tables d pool).pool ↔
      e ∈ distinctExamples pool ∧ e.descriptor = d :=
    fun e => by rw [(perm_ofPool h d).mem_iff, List.mem_filter, beq_iff_eq]
  obtain ⟨e, rest, hpool⟩ := List.exists_cons_of_ne_nil (pool_ne_nil_of_mem_groups hg)
  obtain ⟨hfirst, hrest, hattained⟩ := foldl_least rest e.complexity
  have hsimplest : (ofPool tables d pool).simplest =
      rest.foldl (fun best e => if best.le e.complexity then best else e.complexity)
        e.complexity := by
    rw [simplest, hpool]
  rw [hpool] at hmem
  rw [hsimplest]
  constructor
  · rcases hattained with heq | ⟨e', he', heq⟩
    · obtain ⟨he, hd⟩ := (hmem e).1 List.mem_cons_self
      exact ⟨e, he, hd, heq.symm⟩
    · obtain ⟨he, hd⟩ := (hmem e').1 (List.mem_cons_of_mem _ he')
      exact ⟨e', he, hd, heq⟩
  · intro e' he' hd
    rcases List.mem_cons.1 ((hmem e').2 ⟨he', hd⟩) with rfl | he'
    · exact hfirst
    · exact hrest e' he'

/-- The groups of a pool stand in the order of their least complexities and, where these are the
same, of the first appearance of their descriptors. -/
theorem pairwise_groups {tables : Tables} {pool : List Example} (h : tables.ExactOn pool) :
    ((groups tables pool).map Group.descriptor).Pairwise (Precedes pool) := by
  have happear : (((pool.map Example.descriptor).eraseDups.map fun d =>
      ofPool tables d pool).map fun g => (g.simplest, g)).Pairwise fun a b =>
        (pool.map Example.descriptor).idxOf a.2.descriptor <
          (pool.map Example.descriptor).idxOf b.2.descriptor := by
    rw [List.pairwise_map, List.pairwise_map]
    exact pairwise_idxOf_eraseDups _
  have hsorted := pairwise_mergeSort_stable
    (fun a b c => Complexity.le_trans (Prod.fst a) (Prod.fst b) (Prod.fst c))
    (fun a b => Complexity.le_total (Prod.fst a) (Prod.fst b)) happear
  rw [List.pairwise_map, groups, List.pairwise_map]
  refine hsorted.imp_of_mem fun {a b} ha hb hle => ?_
  have hgroup : ∀ a ∈ (((pool.map Example.descriptor).eraseDups.map fun d =>
      ofPool tables d pool).map fun g => (g.simplest, g)).mergeSort (fun a b => a.1.le b.1),
      a.2 ∈ groups tables pool ∧ a.2.simplest = a.1 := by
    intro a ha
    refine ⟨List.mem_map_of_mem ha, ?_⟩
    obtain ⟨g, -, rfl⟩ := List.mem_map.1 (List.mem_mergeSort.1 ha)
    rfl
  obtain ⟨ha, heqa⟩ := hgroup a ha
  obtain ⟨hb, heqb⟩ := hgroup b hb
  refine ⟨_, _, simplest_isLeast h ha, simplest_isLeast h hb, ?_, fun heq => hle.2 ?_⟩
  · rw [heqa, heqb]
    exact hle.1
  · rw [← heqa, ← heqb, heq]
    exact Complexity.le_refl _

theorem perm_map_descriptor_groups (tables : Tables) (pool : List Example) :
    ((groups tables pool).map Group.descriptor).Perm (pool.map Example.descriptor).eraseDups := by
  have h := (perm_groups tables pool).map Group.descriptor
  rwa [List.map_map, List.map_id'' (f := Group.descriptor ∘ _) fun _ => rfl] at h

end Group

/-! ### The selection -/

variable {σ : Type} [RandomSource σ] {tables : Tables} {pool : List Example}

/-- The first examples of a selection are of the first groups, one of each. -/
theorem map_descriptor_selectDiverse (tables : Tables) (pool : List Example) {count n : Nat} (s : σ)
    (hcount : n ≤ count) (hgroups : n ≤ ((Group.groups tables pool).map Group.descriptor).length) :
    ((selectDiverse pool count s tables).1.take n).map Example.descriptor =
      ((Group.groups tables pool).map Group.descriptor).take n := by
  have hfirst := Group.map_descriptor_firstRound
    (fun g (hg : g ∈ Group.groups tables pool) => Group.pool_ne_nil_of_mem_groups hg)
    (fun _ => Group.descriptor_of_mem_groups) s
  rw [selectDiverse_eq_take, List.take_take, Nat.min_eq_left hcount, List.map_take, selectionOrder,
    List.map_append, hfirst, List.take_append_of_le_length hgroups]

/-- With exact tables a selection is diverse. The order it follows goes through the distinct
examples (`perm_selectionOrder`) and begins with one example of each group. -/
theorem isDiverse_of_exactOn (hexact : tables.ExactOn pool) (count : Nat) (s : σ) :
    IsDiverse pool count (selectDiverse pool count s tables).1 where
  length := by
    rw [selectDiverse_eq_take, List.length_take, (perm_selectionOrder hexact s).length_eq]
  subperm := by
    rw [selectDiverse_eq_take]
    have hdistinct :=
      (List.take_sublist count _).subperm.trans (perm_selectionOrder hexact s).subperm
    exact hdistinct.trans (eraseDupsBy_sublist _ pool).subperm
  distinct := by
    rw [selectDiverse_eq_take]
    exact (pairwise_selectionOrder hexact s).sublist (List.take_sublist _ _)
  spread := by
    have hperm := Group.perm_map_descriptor_groups tables pool
    rw [← hperm.length_eq, map_descriptor_selectDiverse tables pool s (Nat.min_le_left ..)
      (Nat.min_le_right ..)]
    exact (hperm.nodup_iff.2 (nodup_eraseDups _)).sublist (List.take_sublist _ _)
  ranked :=
    ⟨_, Group.perm_map_descriptor_groups tables pool, Group.pairwise_groups hexact,
      map_descriptor_selectDiverse tables pool s (Nat.min_le_left ..) (Nat.min_le_right ..)⟩

/-- **Diversity.** Whatever the pool, the count and the draws are, a selection has as many examples
as were asked for or all distinct ones, all from the pool and no two of them repeating each other,
and its first examples are one of each group, simplest groups first. If no two examples differ in
the signs of zeros only, any tables will do; otherwise they have to go by values. -/
theorem isDiverse_selectDiverse (pool : List Example) (tables : Tables)
    (h : SignsAgree pool ∨ tables = Tables.byValues) (count : Nat) (s : σ) :
    IsDiverse pool count (selectDiverse pool count s tables).1 := by
  refine isDiverse_of_exactOn ?_ count s
  rcases h with hsigns | rfl
  · exact tables.exactOn_of_signsAgree hsigns
  · exact Tables.exactOn_byValues pool

/-- The example of a single number. -/
def numberExample (x : Float) : Example where
  values := .ofList [("n", .number x)]
  complexity := ⟨1, 1⟩
  signature := "n"
  descriptor := "n"

/-- Three examples of one descriptor. -/
def numberPool : List Example := [numberExample 1, numberExample 2, numberExample 3]

/-- The signs of three different numbers agree, and a selection of two of them is diverse. -/
theorem isDiverse_selectDiverse_numbers :
    SignsAgree numberPool ∧ IsDiverse numberPool 2
      (selectDiverse numberPool 2 (Mulberry32.ofSeed 42) Tables.byBits).1 := by
  have hsigns : SignsAgree numberPool := by decide +kernel
  exact ⟨hsigns, isDiverse_selectDiverse _ _ (.inl hsigns) _ _⟩

end ProcedureChart
