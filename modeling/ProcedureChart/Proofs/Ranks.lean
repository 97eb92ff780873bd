import Mathlib.Data.List.Nodup
import ProcedureChart.Proofs.Diversity
import ProcedureChart.Proofs.Numeric.TotalOrder

/-!
# Ranks within a group

The distinct examples of a descriptor are ranked by their magnitudes, which are never NaN, so that
the order of the sort is that of the numbers (`pairwise_byMagnitude`). The first example of a group
that a selection takes is from the lower half of these ranks. Padding then takes the middle one of
what is left, and wherever the first one was taken out, this is the rank behind the lower half
(`getElem?_eraseIdx_half`). So the second example of a group is a larger one
(`ranks_selectDiverse`).
-/

namespace ProcedureChart

/-! ### Magnitudes -/

theorem Value.magnitude_isFinite (v : Value) : v.magnitude.isFinite := by
  have hcut : ∀ x : Float, (if x.isFinite then x else 0.0).isFinite := by
    intro x
    split
    · next h => exact h
    · rfl
  exact hcut _

/-- Magnitudes are numbers: what is added up is finite, though a sum may be too large to be. -/
theorem Example.magnitude_isNaN (e : Example) : e.magnitude.isNaN = false := by
  have hsum : ∀ (values : List Value) (sum : Float), sum.isNaN = false →
      (values.foldl (fun sum v => sum + v.magnitude) sum).isNaN = false := by
    intro values
    induction values with
    | nil => exact fun _ h => h
    | cons v rest ih => exact fun _ h => ih _ (Numeric.add_isNaN h v.magnitude_isFinite)
  exact hsum _ _ rfl

namespace Group

/-- Sorting by magnitude puts smaller examples in front of larger ones. -/
theorem pairwise_byMagnitude (pool : List Example) :
    (byMagnitude pool).Pairwise fun e other => e.magnitude ≤ other.magnitude := by
  have hsorted : ((pool.map fun e => (Numeric.totalOrderKey e.magnitude, e)).mergeSort
      fun a b => a.1 ≤ b.1).Pairwise fun a b => decide (a.1 ≤ b.1) = true := by
    refine List.pairwise_mergeSort (fun a b c hab hbc => ?_) (fun a b => ?_) _
    · exact decide_eq_true (Int.le_trans (of_decide_eq_true hab) (of_decide_eq_true hbc))
    · rw [Bool.or_eq_true, decide_eq_true_iff, decide_eq_true_iff]
      exact Int.le_total _ _
  rw [byMagnitude, List.pairwise_map]
  refine hsorted.imp_of_mem fun {a b} ha hb hle => ?_
  obtain ⟨e, -, rfl⟩ := List.mem_map.1 (List.mem_mergeSort.1 ha)
  obtain ⟨other, -, rfl⟩ := List.mem_map.1 (List.mem_mergeSort.1 hb)
  exact Numeric.le_of_totalOrderKey_le e.magnitude_isNaN other.magnitude_isNaN
    (of_decide_eq_true hle)

/-! ### Taking from one group -/

/-- When a place of the lower half is taken out of a list, the place behind the lower half is the
middle of what is left. -/
theorem getElem?_eraseIdx_half {α : Type} {l : List α} {i : Nat} (h : i < (l.length + 1) / 2) :
    (l.eraseIdx i)[(l.eraseIdx i).length / 2]? = l[(l.length + 1) / 2]? := by
  rw [List.length_eraseIdx_of_lt (by omega), List.getElem?_eraseIdx_of_ge (by omega)]
  congr 1
  omega

variable {σ : Type} [RandomSource σ]

/-- What is taken first has a rank of the lower half. -/
theorem exists_rank_of_takeReadable? {g g' : Group} {e : Example} {s : σ}
    (h : (g.takeReadable? s).1 = some (e, g')) :
    ∃ i < (g.pool.length + 1) / 2, g.pool[i]? = some e ∧
      g' = { g with pool := g.pool.eraseIdx i } := by
  rw [takeReadable?] at h
  split at h
  · cases h
  · next hpool =>
    have hpos : 0 < g.pool.length := List.length_pos_iff.2 fun heq => hpool (by rw [heq]; rfl)
    have hindex := Draw.index_lt (show 0 < (g.pool.length + 1) / 2 by omega) s
    obtain ⟨e', he, heq⟩ := Option.map_eq_some_iff.1 h
    cases heq
    exact ⟨_, hindex, he, rfl⟩

/-- What is taken from the rest has the rank behind the lower half. -/
theorem rank_of_takeLarger? {g g' g'' : Group} {e larger : Example} {s : σ}
    (hfirst : (g.takeReadable? s).1 = some (e, g'))
    (hlarger : g'.takeLarger? = some (larger, g'')) :
    g.pool[(g.pool.length + 1) / 2]? = some larger := by
  obtain ⟨i, hi, -, rfl⟩ := exists_rank_of_takeReadable? hfirst
  obtain ⟨larger', hget, heq⟩ := Option.map_eq_some_iff.1 hlarger
  cases heq
  exact (getElem?_eraseIdx_half hi).symm.trans hget

/-! ### Taking from many groups -/

/-- If the elements of a list are of different kinds, only one of them is of its kind. -/
theorem filter_eq_singleton {α β : Type} [BEq β] [LawfulBEq β] {kind : α → β} {l : List α} {a : α}
    (hnodup : (l.map kind).Nodup) (ha : a ∈ l) : (l.filter fun b => kind b == kind a) = [a] := by
  have hkinds : (l.filter fun b => kind b == kind a).map kind = [kind a] :=
    calc _
      _ = (l.map kind).filter (· == kind a) := List.filter_map.symm
      _ = [kind a] := by
        rw [List.filter_beq, List.count_eq_one_of_mem hnodup (List.mem_map_of_mem ha)]
        rfl
  obtain ⟨b, hone, -⟩ := List.map_eq_singleton_iff.1 hkinds
  have hself : a ∈ l.filter fun b => kind b == kind a :=
    List.mem_filter.2 ⟨ha, beq_self_eq_true _⟩
  rw [hone, List.mem_singleton] at hself
  rw [hone, hself]

/-- The examples of each group carry its descriptor, and no other group has it. -/
structure Labelled (groups : List Group) : Prop where
  descriptor : ∀ g ∈ groups, ∀ e ∈ g.pool, e.descriptor = g.descriptor
  nodup : (groups.map Group.descriptor).Nodup

theorem Labelled.eq_of_mem {groups : List Group} (h : Labelled groups) {g g' : Group} {e : Example}
    (hg : g ∈ groups) (hg' : g' ∈ groups) (he : e ∈ g'.pool)
    (hd : e.descriptor = g.descriptor) : g' = g :=
  List.inj_on_of_nodup_map h.nodup hg' hg ((h.descriptor g' hg' e he).symm.trans hd)

/-- The groups of a pool are made one for each descriptor that appears in it, from the examples that
carry it. -/
theorem labelled_groups (tables : Tables) (pool : List Example) : Labelled (groups tables pool) where
  descriptor _ hg := descriptor_of_mem_groups hg
  nodup := (perm_map_descriptor_groups tables pool).nodup_iff.2 (nodup_eraseDups _)

/-- The descriptor of each example of a pool has a group. -/
theorem ofPool_mem_groups (tables : Tables) {pool : List Example} {e : Example} (he : e ∈ pool) :
    ofPool tables e.descriptor pool ∈ groups tables pool :=
  (perm_groups tables pool).mem_iff.2
    (List.mem_map_of_mem (List.mem_eraseDups.2 (List.mem_map_of_mem he)))

/-- What the first round leaves of a group: one example of it was picked. -/
theorem exists_of_mem_left {groups : List Group} (hgroups : ∀ g ∈ groups, g.pool ≠ []) {s : σ}
    {g' : Group} (hg' : g' ∈ (firstRound groups.length groups s).1.2) :
    ∃ g ∈ groups, ∃ e ∈ (firstRound groups.length groups s).1.1, ∃ s' : σ,
      (g.takeReadable? s').1 = some (e, g') := by
  induction groups generalizing s with
  | nil => cases hg'
  | cons g rest ih =>
    obtain ⟨e, left, htaken⟩ := takeReadable?_eq_some (hgroups g List.mem_cons_self) s
    rw [List.length_cons, firstRound_succ_cons rest.length rest htaken] at hg' ⊢
    rcases List.mem_cons.1 hg' with rfl | hg'
    · exact ⟨g, List.mem_cons_self, e, List.mem_cons_self, s, htaken⟩
    · obtain ⟨g, hg, e, he, hpick⟩ := ih (fun g hg => hgroups g (List.mem_cons_of_mem _ hg)) hg'
      exact ⟨g, List.mem_cons_of_mem _ hg, e, List.mem_cons_of_mem _ he, hpick⟩

/-- The first round leaves a group of each descriptor. -/
theorem map_descriptor_left {groups : List Group} (hgroups : ∀ g ∈ groups, g.pool ≠ []) (s : σ) :
    (firstRound groups.length groups s).1.2.map Group.descriptor =
      groups.map Group.descriptor := by
  induction groups generalizing s with
  | nil => rfl
  | cons g rest ih =>
    obtain ⟨e, left, htaken⟩ := takeReadable?_eq_some (hgroups g List.mem_cons_self) s
    obtain ⟨i, -, -, rfl⟩ := exists_rank_of_takeReadable? htaken
    rw [List.length_cons, firstRound_succ_cons rest.length rest htaken, List.map_cons,
      List.map_cons, ih fun g hg => hgroups g (List.mem_cons_of_mem _ hg)]

theorem Labelled.left {groups : List Group} (h : Labelled groups)
    (hgroups : ∀ g ∈ groups, g.pool ≠ []) (s : σ) :
    Labelled (firstRound groups.length groups s).1.2 where
  descriptor g' hg' e he := by
    obtain ⟨g, hg, first, -, s', htaken⟩ := exists_of_mem_left hgroups hg'
    have hmem := (perm_of_takeReadable? htaken).subset (List.mem_cons_of_mem _ he)
    obtain ⟨i, -, -, rfl⟩ := exists_rank_of_takeReadable? htaken
    exact h.descriptor g hg e hmem
  nodup := by
    rw [map_descriptor_left hgroups]
    exact h.nodup

/-- A whole round of padding has one example of each group that has any left, and the label of the
group tells which one. -/
theorem find?_larger {groups : List Group} (h : Labelled groups) {g g' : Group} {e : Example}
    (hg : g ∈ groups) (htaken : g.takeLarger? = some (e, g')) :
    (Group.larger groups).find? (·.descriptor == g.descriptor) = some e := by
  have htakes : ∀ {g g' : Group} {e : Example}, g.takeLarger? = some (e, g') → e ∈ g.pool :=
    fun htaken => (perm_of_takeAt? htaken).subset List.mem_cons_self
  cases hfind : (Group.larger groups).find? (·.descriptor == g.descriptor) with
  | none =>
    have hmem : e ∈ Group.larger groups :=
      List.mem_filterMap.2 ⟨g, hg, by rw [htaken, Option.map_some]⟩
    have hne := List.find?_eq_none.1 hfind e hmem
    exact absurd (beq_iff_eq.2 (h.descriptor g hg e (htakes htaken))) hne
  | some found =>
    obtain ⟨g₂, hg₂, heq⟩ := List.mem_filterMap.1 (List.mem_of_find?_eq_some hfind)
    obtain ⟨⟨_, left⟩, htaken₂, rfl⟩ := Option.map_eq_some_iff.1 heq
    have hd := List.find?_some hfind
    obtain rfl := h.eq_of_mem hg hg₂ (htakes htaken₂) (eq_of_beq hd)
    rw [htaken] at htaken₂
    cases htaken₂
    rfl

/-- The first example of a descriptor that padding gives is the one its group gives as a larger
one. -/
theorem takeLarger?_of_find?_padding {groups : List Group} (h : Labelled groups) {g : Group}
    (hg : g ∈ groups) {room : Nat} {larger : Example}
    (hfind : (padding room groups).find? (·.descriptor == g.descriptor) = some larger) :
    ∃ g', g.takeLarger? = some (larger, g') := by
  have hmem := (subperm_padding room groups).subset (List.mem_of_find?_eq_some hfind)
  have hstock : stock groups ≠ [] := List.ne_nil_of_mem hmem
  have hd := List.find?_some hfind
  -- the group has something left, so a whole round has an example of it
  obtain ⟨g', hg', hpool⟩ := List.mem_flatMap.1 hmem
  obtain rfl := h.eq_of_mem hg hg' hpool (eq_of_beq hd)
  cases htaken : g'.takeLarger? with
  | none =>
    rw [takeLarger?_eq_none.1 htaken] at hpool
    cases hpool
  | some taken =>
    have hround := find?_larger h hg htaken
    refine ⟨taken.2, congrArg some (Prod.ext (Option.some.inj ?_) rfl)⟩
    rcases Nat.lt_or_ge (Group.larger groups).length room with hlt | hle
    · rw [padding_of_lt hlt hstock, List.find?_append, hround] at hfind
      exact hfind
    · rw [padding_of_le hle] at hfind
      exact hround.symm.trans ((List.take_prefix room _).find?_eq_some hfind)

/-- The first round has one example of each group. The groups that it leaves have the same labels as
before, so the one that was taken belongs to exactly one of them. -/
theorem exists_pick {groups : List Group} (h : Labelled groups)
    (hgroups : ∀ g ∈ groups, g.pool ≠ []) (s : σ) {g : Group} (hg : g ∈ groups) :
    ∃ e, ∃ g' ∈ (firstRound groups.length groups s).1.2,
      (∃ s' : σ, (g.takeReadable? s').1 = some (e, g')) ∧
      (firstRound groups.length groups s).1.1.filter (·.descriptor == g.descriptor) = [e] := by
  -- its descriptor is that of a group that is left, which is left of the group itself
  have hleft : g.descriptor ∈ (firstRound groups.length groups s).1.2.map Group.descriptor := by
    rw [map_descriptor_left hgroups]
    exact List.mem_map_of_mem hg
  obtain ⟨g', hg', hd⟩ := List.mem_map.1 hleft
  obtain ⟨g₂, hg₂, e, he, s', htaken⟩ := exists_of_mem_left hgroups hg'
  have hmem := (perm_of_takeReadable? htaken).subset List.mem_cons_self
  obtain ⟨i, -, -, rfl⟩ := exists_rank_of_takeReadable? htaken
  have hlabel : e.descriptor = g.descriptor := (h.descriptor g₂ hg₂ e hmem).trans hd
  obtain rfl := h.eq_of_mem hg hg₂ hmem hlabel
  have hnodup := h.nodup
  rw [← map_descriptor_firstRound hgroups h.descriptor s] at hnodup
  refine ⟨e, _, hg', ⟨s', htaken⟩, ?_⟩
  rw [← hlabel]
  exact filter_eq_singleton hnodup he

/-- When the count reaches all groups, something is taken of each. -/
theorem exists_mem_taken (tables : Tables) (pool : List Example) {count : Nat} (s : σ) {g : Group}
    (hg : g ∈ groups tables pool) (hcount : (groups tables pool).length ≤ count) :
    ∃ e rest,
      (selectDiverse pool count s tables).1.filter (·.descriptor == g.descriptor) = e :: rest := by
  have hgroups : ∀ g ∈ groups tables pool, g.pool ≠ [] := fun _ => pool_ne_nil_of_mem_groups
  obtain ⟨e, -, -, -, hfilter⟩ := exists_pick (labelled_groups tables pool) hgroups s hg
  rw [← firstRound_of_length_le hgroups hcount s] at hfilter
  rw [selectDiverse, List.filter_append, hfilter]
  exact ⟨e, _, rfl⟩

/-- What a selection takes of a group: an example of its smaller half in the first round, and
otherwise padding, of which the first is the larger one of what is left. -/
theorem exists_taken (tables : Tables) (pool : List Example) (count : Nat) (s : σ) {g : Group}
    (hg : g ∈ groups tables pool) {e : Example} {rest : List Example}
    (htaken : (selectDiverse pool count s tables).1.filter (·.descriptor == g.descriptor) = e :: rest) :
    let first := (firstRound count (groups tables pool) s).1
    let padded := padding (count - first.1.length) first.2
    first.1.filter (·.descriptor == g.descriptor) = [e] ∧
    padded.filter (·.descriptor == g.descriptor) = rest ∧
    ∃ g', (∃ s' : σ, (g.takeReadable? s').1 = some (e, g')) ∧
      ∀ larger, rest.head? = some larger → ∃ g'', g'.takeLarger? = some (larger, g'') := by
  intro first padded
  have hlabelled := labelled_groups tables pool
  have hgroups : ∀ g ∈ groups tables pool, g.pool ≠ [] := fun _ => pool_ne_nil_of_mem_groups
  obtain ⟨e', g', hg', ⟨s', hpick⟩, hfilter⟩ := exists_pick hlabelled hgroups s hg
  have hselected : (selectDiverse pool count s tables).1 = first.1 ++ padded := rfl
  rw [hselected, List.filter_append] at htaken
  rcases Nat.lt_or_ge count (groups tables pool).length with hlt | hle
  -- the first round does not reach all groups, and there is no padding
  · have hlength : first.1.length = count := by
      rw [length_firstRound hgroups, Nat.min_eq_left (Nat.le_of_lt hlt)]
    have hpadded : padded = [] := by
      change padding (count - first.1.length) first.2 = []
      rw [hlength, Nat.sub_self, padding]
    have hfirst : (first.1.filter (·.descriptor == g.descriptor)).Sublist [e'] := by
      change ((firstRound count (groups tables pool) s).1.1.filter _).Sublist _
      rw [← hfilter, firstRound_eq_take hgroups]
      exact (List.take_sublist _ _).filter _
    rw [hpadded, List.filter_nil, List.append_nil] at htaken
    rw [htaken] at hfirst
    have hone := (List.sublist_singleton.1 hfirst).resolve_left (List.cons_ne_nil e rest)
    obtain ⟨rfl, rfl⟩ := List.cons.inj hone
    refine ⟨htaken, by rw [hpadded]; rfl, g', ⟨s', hpick⟩, fun larger hlarger => ?_⟩
    cases hlarger
  -- the first round has an example of each group, and the rest is padding
  · have hfirst : first = (firstRound (groups tables pool).length (groups tables pool) s).1 :=
      congrArg Prod.fst (firstRound_of_length_le hgroups hle s)
    have hone : first.1.filter (·.descriptor == g.descriptor) = [e'] := by rw [hfirst, hfilter]
    rw [hone, List.singleton_append, List.cons.injEq] at htaken
    obtain ⟨rfl, hrest⟩ := htaken
    refine ⟨hone, hrest, g', ⟨s', hpick⟩, fun larger hlarger => ?_⟩
    obtain ⟨i, -, -, rfl⟩ := exists_rank_of_takeReadable? hpick
    rw [← hrest, List.head?_filter] at hlarger
    rw [← hfirst] at hg'
    have hleft : Labelled first.2 := hfirst ▸ hlabelled.left hgroups s
    exact takeLarger?_of_find?_padding hleft hg' hlarger

end Group

/-! ### The selection -/

variable {σ : Type} [RandomSource σ]

/-- **Readable first, larger next.** In the ranking of the distinct examples of a descriptor by
magnitude, the first one that a selection takes is of the lower half, and it takes one as soon as
the count reaches all groups. Whatever else it takes of them is padding, and the first of that is
the one behind the lower half. This holds whichever examples the tables of the selection find to be
distinct; exact ones find those that do not repeat each other. -/
theorem ranks_selectDiverse (tables : Tables) (pool : List Example) (count : Nat) (s : σ)
    (d : String) :
    let ranked := (Group.ofPool tables d pool).pool
    let half := (ranked.length + 1) / 2
    let first := (Group.firstRound count (Group.groups tables pool) s).1
    let padded := Group.padding (count - first.1.length) first.2
    let taken := (selectDiverse pool count s tables).1.filter (·.descriptor == d)
    ranked.Perm (Group.distinct (tables d) [] (pool.filter (·.descriptor == d))) ∧
    (tables.ExactOn pool → ranked.Perm ((distinctExamples pool).filter (·.descriptor == d))) ∧
    ranked.Pairwise (fun e other => e.magnitude ≤ other.magnitude) ∧
    (ranked ≠ [] → (Group.groups tables pool).length ≤ count → ∃ e rest, taken = e :: rest) ∧
    ∀ e rest, taken = e :: rest →
      first.1.filter (·.descriptor == d) = [e] ∧ padded.filter (·.descriptor == d) = rest ∧
      ∃ i < half, ranked[i]? = some e ∧ ∀ larger, rest.head? = some larger →
        ranked[half]? = some larger ∧ e.magnitude ≤ larger.magnitude := by
  intro ranked half first padded taken
  have hsorted : ranked.Pairwise fun e other => e.magnitude ≤ other.magnitude :=
    Group.pairwise_byMagnitude _
  have hperm : ranked.Perm (Group.distinct (tables d) [] (pool.filter (·.descriptor == d))) :=
    Group.perm_byMagnitude _
  refine ⟨hperm, fun hexact => Group.perm_ofPool hexact d, hsorted, fun hranked hcount => ?_,
    fun e rest htaken => ?_⟩
  · obtain ⟨e, he⟩ := List.exists_mem_of_ne_nil _ hranked
    obtain ⟨he, hd⟩ := List.mem_filter.1 (Group.mem_of_mem_distinct (hperm.subset he))
    have hg := Group.ofPool_mem_groups tables he
    rw [eq_of_beq hd] at hg
    exact Group.exists_mem_taken tables pool s hg hcount
  -- the descriptor has a group, since an example of it was selected
  obtain ⟨he, hd⟩ := List.mem_filter.1 (show e ∈ taken from htaken ▸ List.mem_cons_self)
  have hg := Group.ofPool_mem_groups tables (mem_of_mem_selectDiverse he)
  rw [eq_of_beq hd] at hg
  obtain ⟨hfirst, hpadded, g', ⟨s', hpick⟩, hnext⟩ :=
    Group.exists_taken tables pool count s hg htaken
  obtain ⟨i, hi, hget, -⟩ := Group.exists_rank_of_takeReadable? hpick
  refine ⟨hfirst, hpadded, i, hi, hget, fun larger hlarger => ?_⟩
  obtain ⟨g'', hlarger⟩ := hnext larger hlarger
  have hrank : ranked[half]? = some larger := Group.rank_of_takeLarger? hpick hlarger
  obtain ⟨hlt, heq⟩ := List.getElem?_eq_some_iff.1 hget
  obtain ⟨hlt', heq'⟩ := List.getElem?_eq_some_iff.1 hrank
  refine ⟨hrank, ?_⟩
  rw [← heq, ← heq']
  exact List.pairwise_iff_getElem.1 hsorted _ _ hlt hlt' hi

/-- Three different numbers make one group, and they are in the order of their magnitudes. -/
theorem ofPool_numberPool : Group.ofPool Tables.byBits "n" numberPool = ⟨"n", numberPool⟩ := by
  have hdistinct : Group.distinct (Tables.byBits "n") []
      (numberPool.filter fun e => e.descriptor == "n") = numberPool := by
    decide +kernel
  rw [Group.ofPool, hdistinct, Group.byMagnitude, List.mergeSort_of_pairwise (by decide +kernel)]
  rfl

theorem groups_numberPool : Group.groups Tables.byBits numberPool = [⟨"n", numberPool⟩] := by
  have hnames : (numberPool.map Example.descriptor).eraseDups = ["n"] := by decide +kernel
  rw [Group.groups, hnames, List.map_singleton, List.map_singleton, List.mergeSort_singleton,
    ofPool_numberPool]
  rfl

/-- Of three numbers the second one is drawn here, and the third one comes next. -/
theorem ranks_selectDiverse_numbers :
    (selectDiverse numberPool 2 (Mulberry32.ofSeed 42)).1.filter (·.descriptor == "n") =
      [numberExample 2, numberExample 3] ∧
    ∃ i < 2, numberPool[i]? = some (numberExample 2) ∧ numberPool[2]? = some (numberExample 3) ∧
      (numberExample 2).magnitude ≤ (numberExample 3).magnitude := by
  have htaken : (selectDiverse numberPool 2 (Mulberry32.ofSeed 42)).1.filter
      (·.descriptor == "n") = [numberExample 2, numberExample 3] := by
    rw [selectDiverse, groups_numberPool]
    decide +kernel
  obtain ⟨-, -, -, -, hranks⟩ :=
    ranks_selectDiverse Tables.byBits numberPool 2 (Mulberry32.ofSeed 42) "n"
  rw [ofPool_numberPool] at hranks
  obtain ⟨-, -, i, hi, hget, hnext⟩ := hranks _ _ htaken
  exact ⟨htaken, i, hi, hget, hnext _ rfl⟩

end ProcedureChart
