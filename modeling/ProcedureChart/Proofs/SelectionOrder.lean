import ProcedureChart.Generate.Run
import ProcedureChart.Proofs.Selection

/-!
# The order of a selection

How many examples are asked for decides where a selection stops and nothing else. Each round with
less room gives the first of what it gives with more (`firstRound_eq_take`,
`paddingRound_fst_eq_take`), and a round that is not cut short leaves the same groups, so the rounds
behind it stay in step (`padding_eq_take`). A pool is therefore selected in one order,
`selectionOrder`, whatever the count is, and a selection is the beginning of it
(`selectDiverse_eq_take`).
-/

namespace ProcedureChart

namespace Group

variable {σ : Type} [RandomSource σ]

/-! ### The first round -/

/-- A group that is not empty gives an example from its smaller half. -/
theorem takeReadable?_eq_some {g : Group} (hg : g.pool ≠ []) (s : σ) :
    ∃ e g', (g.takeReadable? s).1 = some (e, g') := by
  have hpos := List.length_pos_iff.2 hg
  have hindex := Draw.index_lt (show 0 < (g.pool.length + 1) / 2 by omega) s
  have hlt : (Draw.index ((g.pool.length + 1) / 2) s).1 < g.pool.length := by omega
  rw [takeReadable?, if_neg (by rwa [List.isEmpty_iff])]
  exact ⟨_, _, congrArg (Option.map _) (List.getElem?_eq_getElem hlt)⟩

/-- The first round over groups of which the first is not empty. -/
theorem firstRound_succ_cons {g g' : Group} {e : Example} {s : σ} (room : Nat) (rest : List Group)
    (htaken : (g.takeReadable? s).1 = some (e, g')) :
    firstRound (room + 1) (g :: rest) s =
      ((e :: (firstRound room rest (g.takeReadable? s).2).1.1,
        g' :: (firstRound room rest (g.takeReadable? s).2).1.2),
        (firstRound room rest (g.takeReadable? s).2).2) := by
  simp only [firstRound, htaken]

/-- The first round picks one example from each group as long as there is room. -/
theorem length_firstRound {groups : List Group} (hgroups : ∀ g ∈ groups, g.pool ≠ []) (room : Nat)
    (s : σ) : (firstRound room groups s).1.1.length = min room groups.length := by
  induction groups generalizing room s with
  | nil => cases room <;> simp [firstRound]
  | cons g rest ih =>
    cases room with
    | zero => simp [firstRound]
    | succ room =>
      obtain ⟨e, g', htaken⟩ := takeReadable?_eq_some (hgroups g List.mem_cons_self) s
      have hrest := ih (fun g hg => hgroups g (List.mem_cons_of_mem _ hg)) room
      rw [firstRound_succ_cons room rest htaken, List.length_cons, hrest, List.length_cons]
      omega

/-- With less room the first round gives the beginning of what it gives without a bound. -/
theorem firstRound_eq_take {groups : List Group} (hgroups : ∀ g ∈ groups, g.pool ≠ [])
    (room : Nat) (s : σ) :
    (firstRound room groups s).1.1 = (firstRound groups.length groups s).1.1.take room := by
  induction groups generalizing room s with
  | nil => cases room <;> rfl
  | cons g rest ih =>
    cases room with
    | zero => rfl
    | succ room =>
      obtain ⟨e, g', htaken⟩ := takeReadable?_eq_some (hgroups g List.mem_cons_self) s
      have hrest := ih (fun g hg => hgroups g (List.mem_cons_of_mem _ hg)) room
      rw [List.length_cons, firstRound_succ_cons room rest htaken,
        firstRound_succ_cons rest.length rest htaken, hrest, List.take_succ_cons]

/-- Room beyond the number of groups makes no difference to the first round. -/
theorem firstRound_of_length_le {groups : List Group} (hgroups : ∀ g ∈ groups, g.pool ≠ [])
    {room : Nat} (hroom : groups.length ≤ room) (s : σ) :
    firstRound room groups s = firstRound groups.length groups s := by
  induction groups generalizing room s with
  | nil => cases room <;> rfl
  | cons g rest ih =>
    obtain ⟨room, rfl⟩ := Nat.exists_eq_add_of_lt (Nat.lt_of_lt_of_le (Nat.succ_pos _) hroom)
    obtain ⟨e, g', htaken⟩ := takeReadable?_eq_some (hgroups g List.mem_cons_self) s
    rw [Nat.zero_add] at hroom ⊢
    have hrest := ih (fun g hg => hgroups g (List.mem_cons_of_mem _ hg))
      (Nat.le_of_succ_le_succ hroom)
    rw [List.length_cons, firstRound_succ_cons room rest htaken,
      firstRound_succ_cons rest.length rest htaken, hrest]

/-! ### Rounds of padding -/

/-- What one round of padding picks when nothing bounds it. -/
def larger (groups : List Group) : List Example :=
  groups.filterMap fun g => g.takeLarger?.map Prod.fst

theorem takeLarger?_eq_none {g : Group} : g.takeLarger? = none ↔ g.pool = [] := by
  rw [takeLarger?, takeAt?, Option.map_eq_none_iff, List.getElem?_eq_none_iff,
    ← List.length_eq_zero_iff]
  omega

theorem larger_cons_none {g : Group} (rest : List Group) (h : g.takeLarger? = none) :
    larger (g :: rest) = larger rest := by
  rw [larger, List.filterMap_cons_none (by rw [h, Option.map_none]), larger]

theorem larger_cons_some {g g' : Group} {e : Example} (rest : List Group)
    (h : g.takeLarger? = some (e, g')) : larger (g :: rest) = e :: larger rest := by
  rw [larger, List.filterMap_cons_some (by rw [h, Option.map_some]), larger]

/-- A round gives nothing only when no group has an example left. -/
theorem larger_eq_nil {groups : List Group} : larger groups = [] ↔ stock groups = [] := by
  induction groups with
  | nil => exact Iff.rfl
  | cons g rest ih =>
    rw [stock_cons, List.append_eq_nil_iff, ← ih]
    cases htaken : g.takeLarger? with
    | none => rw [larger_cons_none rest htaken, takeLarger?_eq_none.1 htaken, eq_self, true_and]
    | some taken =>
      have hpool : g.pool ≠ [] := fun h => by rw [takeLarger?_eq_none.2 h] at htaken; cases htaken
      rw [larger_cons_some rest htaken]
      exact ⟨nofun, fun h => absurd h.1 hpool⟩

/-- With less room a round gives the beginning of what it gives without a bound. -/
theorem paddingRound_fst_eq_take (room : Nat) (groups : List Group) :
    (paddingRound room groups).1 = (larger groups).take room := by
  induction groups generalizing room with
  | nil => cases room <;> rfl
  | cons g rest ih =>
    cases room with
    | zero => rfl
    | succ room =>
      simp only [paddingRound]
      cases htaken : g.takeLarger? with
      | none => rw [larger_cons_none rest htaken, ih]
      | some taken => rw [larger_cons_some rest htaken, List.take_succ_cons, ih]

/-- A round that is not cut short leaves the same groups, however much room it had. So a larger
count goes through the same rounds until the smaller one is full. -/
theorem paddingRound_congr {groups : List Group} {room more : Nat}
    (hroom : (larger groups).length < room) (hmore : (larger groups).length < more) :
    paddingRound room groups = paddingRound more groups := by
  induction groups generalizing room more with
  | nil => cases room <;> cases more <;> rfl
  | cons g rest ih =>
    obtain ⟨room, rfl⟩ := Nat.exists_eq_add_of_lt (Nat.zero_lt_of_lt hroom)
    obtain ⟨more, rfl⟩ := Nat.exists_eq_add_of_lt (Nat.zero_lt_of_lt hmore)
    rw [Nat.zero_add] at hroom hmore ⊢
    rw [Nat.zero_add]
    simp only [paddingRound]
    cases htaken : g.takeLarger? with
    | none =>
      rw [larger_cons_none rest htaken] at hroom hmore
      rw [ih hroom hmore]
    | some taken =>
      rw [larger_cons_some rest htaken, List.length_cons] at hroom hmore
      rw [ih (Nat.lt_of_succ_lt_succ hroom) (Nat.lt_of_succ_lt_succ hmore)]

/-! ### Padding -/

/-- Padding goes round by round and ends with a round that gives nothing. -/
theorem padding_succ (room : Nat) (groups : List Group) :
    padding (room + 1) groups =
      if (paddingRound (room + 1) groups).1.isEmpty then []
      else (paddingRound (room + 1) groups).1 ++
        padding (room + 1 - (paddingRound (room + 1) groups).1.length)
          (paddingRound (room + 1) groups).2 := by
  rw [padding]

theorem padding_of_stock_eq_nil {groups : List Group} (hstock : stock groups = []) (room : Nat) :
    padding room groups = [] := by
  cases room with
  | zero => rw [padding]
  | succ room =>
    rw [padding_succ, paddingRound_fst_eq_take, larger_eq_nil.2 hstock, List.take_nil]
    rfl

/-- Padding that ends within its first round. -/
theorem padding_of_le {groups : List Group} {room : Nat} (hroom : room ≤ (larger groups).length) :
    padding room groups = (larger groups).take room := by
  cases room with
  | zero => rw [padding, List.take_zero]
  | succ room =>
    have hlength : ((larger groups).take (room + 1)).length = room + 1 :=
      List.length_take_of_le hroom
    rw [padding_succ, paddingRound_fst_eq_take, hlength, Nat.sub_self, padding, List.append_nil,
      if_neg]
    rw [List.isEmpty_iff_length_eq_zero, hlength]
    exact Nat.succ_ne_zero room

/-- Padding that goes on behind its first round. -/
theorem padding_of_lt {groups : List Group} {room : Nat} (hroom : (larger groups).length < room)
    (hstock : stock groups ≠ []) :
    padding room groups = larger groups ++
      padding (room - (larger groups).length) (paddingRound room groups).2 := by
  obtain ⟨room, rfl⟩ := Nat.exists_eq_add_of_lt (Nat.zero_lt_of_lt hroom)
  rw [Nat.zero_add] at hroom ⊢
  rw [padding_succ, paddingRound_fst_eq_take, List.take_of_length_le (Nat.le_of_lt hroom), if_neg]
  rwa [List.isEmpty_iff, larger_eq_nil]

/-- **Padding in step.** With less room padding gives the beginning of what it gives with more: the
rounds that both complete are the same, and the round in which the room runs out is cut off where it
does. -/
theorem padding_eq_take {room more : Nat} (hmore : room ≤ more) (groups : List Group) :
    padding room groups = (padding more groups).take room := by
  induction more using Nat.strongRecOn generalizing room groups with
  | ind more ih =>
    by_cases hstock : stock groups = []
    · rw [padding_of_stock_eq_nil hstock, padding_of_stock_eq_nil hstock, List.take_nil]
    have hlarger : 0 < (larger groups).length :=
      List.length_pos_iff.2 fun h => hstock (larger_eq_nil.1 h)
    rcases Nat.lt_or_ge (larger groups).length more with hlt | hle
    · rw [padding_of_lt hlt hstock]
      rcases Nat.lt_or_ge (larger groups).length room with hroom | hroom
      -- both complete the round
      · have hrest := ih (more - (larger groups).length) (by omega)
          (Nat.sub_le_sub_right hmore (larger groups).length) (paddingRound more groups).2
        rw [padding_of_lt hroom hstock, paddingRound_congr hroom hlt, hrest, List.take_append,
          List.take_of_length_le (Nat.le_of_lt hroom)]
      -- only the one with less room ends within the round
      · rw [padding_of_le hroom, List.take_append_of_le_length hroom]
    -- both end within the round
    · rw [padding_of_le hle, padding_of_le (Nat.le_trans hmore hle), List.take_take,
        Nat.min_eq_left hmore]

/-- Padding picks examples as long as there is room and something left. By induction on the room:
every round that is not the last one takes at least one example. -/
theorem length_padding (room : Nat) (groups : List Group) :
    (padding room groups).length = min room (stock groups).length := by
  induction room using Nat.strongRecOn generalizing groups with
  | ind room ih =>
    by_cases hstock : stock groups = []
    · rw [padding_of_stock_eq_nil hstock, hstock, List.length_nil, Nat.min_zero]
    have hlarger : 0 < (larger groups).length :=
      List.length_pos_iff.2 fun h => hstock (larger_eq_nil.1 h)
    have hperm := (perm_paddingRound room groups).length_eq
    rw [paddingRound_fst_eq_take, List.length_append, List.length_take] at hperm
    rcases Nat.lt_or_ge (larger groups).length room with hlt | hle
    · rw [padding_of_lt hlt hstock, List.length_append, ih _ (by omega)]
      omega
    · rw [padding_of_le hle, List.length_take]
      omega

/-- All that padding can give, of which it gives the beginning. -/
theorem padding_eq_take_stock (room : Nat) (groups : List Group) :
    padding room groups = (padding (stock groups).length groups).take room := by
  rcases Nat.le_total room (stock groups).length with hle | hle
  · exact padding_eq_take hle groups
  · have hlength := length_padding room groups
    rw [Nat.min_eq_right hle] at hlength
    have hall := List.take_of_length_le (Nat.le_of_eq hlength)
    rw [padding_eq_take hle groups, hall,
      List.take_of_length_le (Nat.le_trans (Nat.le_of_eq hlength) hle)]

/-! ### Groups of a pool -/

theorem distinct_eq_nil {lookup : Lookup} {pool : List Example} (h : distinct lookup [] pool = []) :
    pool = [] := by
  cases pool with
  | nil => rfl
  | cons e rest =>
    rw [distinct] at h
    split at h
    -- an empty table finds nothing
    · next hfinds =>
      obtain ⟨w, hw, -⟩ := lookup.equals_of_finds hfinds
      cases hw
    · cases h

variable {tables : Tables} {pool : List Example}

/-- A group of a pool is of a descriptor that appears there. -/
theorem exists_of_mem_groups {g : Group} (hg : g ∈ groups tables pool) :
    ∃ d ∈ (pool.map Example.descriptor).eraseDups, ofPool tables d pool = g := by
  simp only [groups, List.mem_map, List.mem_mergeSort] at hg
  obtain ⟨_, ⟨_, hofPool, rfl⟩, rfl⟩ := hg
  exact hofPool

/-- No group of a pool is empty. -/
theorem pool_ne_nil_of_mem_groups {g : Group} (hg : g ∈ groups tables pool) : g.pool ≠ [] := by
  obtain ⟨d, hd, rfl⟩ := exists_of_mem_groups hg
  obtain ⟨e, he, rfl⟩ := List.mem_map.1 (List.mem_eraseDups.1 hd)
  intro hnil
  have hperm := perm_byMagnitude
    (distinct (tables e.descriptor) [] (pool.filter (·.descriptor == e.descriptor)))
  have hdistinct := (hperm.symm.trans (.of_eq hnil)).eq_nil
  have hfilter := List.filter_eq_nil_iff.1 (distinct_eq_nil hdistinct) e he
  exact hfilter (beq_self_eq_true _)

end Group

/-! ### The whole selection -/

variable {σ : Type} [RandomSource σ]

/-- The order in which the examples of a pool are selected: the picks of a first round over all
groups, and everything else as padding gives it. -/
def selectionOrder (tables : Tables) (pool : List Example) (s : σ) : List Example :=
  let groups := Group.groups tables pool
  let first := (Group.firstRound groups.length groups s).1
  first.1 ++ Group.padding (Group.stock first.2).length first.2

/-- **One order.** A selection is the beginning of the order of its pool, as long as was asked for.
So how many are asked for decides where the order is cut off and nothing else, and the source is
left in a state that depends on the groups of the first round alone. -/
theorem selectDiverse_eq_take (pool : List Example) (count : Nat) (s : σ) (tables : Tables) :
    (selectDiverse pool count s tables).1 = (selectionOrder tables pool s).take count := by
  have hgroups : ∀ g ∈ Group.groups tables pool, g.pool ≠ [] := fun _ =>
    Group.pool_ne_nil_of_mem_groups
  have hall := Group.length_firstRound hgroups (Group.groups tables pool).length s
  rw [Nat.min_self] at hall
  change (Group.firstRound count (Group.groups tables pool) s).1.1 ++ _ = List.take count (_ ++ _)
  rw [List.take_append, hall]
  rcases Nat.lt_or_ge count (Group.groups tables pool).length with hlt | hle
  -- the first round is cut short, and nothing is left to pad
  · have hfirst := Group.length_firstRound hgroups count s
    rw [hfirst, Nat.min_eq_left (Nat.le_of_lt hlt), Nat.sub_self, Group.padding,
      Group.firstRound_eq_take hgroups, Nat.sub_eq_zero_of_le (Nat.le_of_lt hlt), List.take_zero]
  -- every group gives an example, and the padding starts from the same groups
  · rw [Group.firstRound_of_length_le hgroups hle, hall, Group.padding_eq_take_stock,
      List.take_of_length_le (Nat.le_trans (Nat.le_of_eq hall) hle)]

/-- A selection of fewer examples is the beginning of one of more. -/
theorem selectDiverse_prefix (pool : List Example) {count more : Nat} (h : count ≤ more) (s : σ)
    (tables : Tables) :
    (selectDiverse pool count s tables).1 <+: (selectDiverse pool more s tables).1 := by
  rw [selectDiverse_eq_take, selectDiverse_eq_take]
  exact List.take_prefix_take_left h

end ProcedureChart
