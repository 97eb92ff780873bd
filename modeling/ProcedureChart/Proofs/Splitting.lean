import Mathlib.Algebra.Order.Floor.Div
import ProcedureChart.Generate.Run

/-!
# Runs split among workers

A run that is split among workers is what one gets by hand from the two stages of generation: the
routes are dealt out in shares of equally many consecutive ones, each share is generated from under
a seed of its own, and the selection is made from all of it together. `generateSplit_eq_handRun` is
this equation, with what the shares are. Nothing in it depends on the number of workers being less
than that of the routes, or positive.
-/

namespace ProcedureChart

/-! ### Slices -/

section

variable {α : Type}

theorem slices_nil (size : Nat) : slices size ([] : List α) = [] := by
  rw [slices, dif_pos (Or.inr rfl)]

theorem slices_of_ne_nil {size : Nat} {l : List α} (hsize : 0 < size) (hl : l ≠ []) :
    slices size l = l.take size :: slices size (l.drop size) := by
  rw [slices, dif_neg (not_or.2 ⟨hsize.ne', hl⟩)]

/-- The slices put together are the list. -/
theorem flatten_slices {size : Nat} (hsize : 0 < size) (l : List α) :
    (slices size l).flatten = l := by
  fun_induction slices size l with
  | case1 l h => rw [h.resolve_left hsize.ne', List.flatten_nil]
  | case2 l h ih => rw [List.flatten_cons, ih, List.take_append_drop]

/-- How many slices there are: the length divided by the size, rounded up. Of size 0 there are
none. -/
theorem length_slices (size : Nat) (l : List α) : (slices size l).length = l.length ⌈/⌉ size := by
  fun_induction slices size l with
  | case1 l h =>
    rcases h with rfl | rfl
    · rw [ceilDiv_zero, List.length_nil]
    · exact (zero_ceilDiv size).symm
  | case2 l h ih =>
    obtain ⟨hsize, hl⟩ := not_or.1 h
    have hpos : 0 < size := Nat.pos_of_ne_zero hsize
    have hlen := List.length_pos_iff.2 hl
    rw [List.length_cons, ih, List.length_drop, Nat.ceilDiv_eq_add_pred_div,
      Nat.ceilDiv_eq_add_pred_div, ← Nat.add_div_right _ hpos]
    -- the last slice is the one that may be shorter
    rcases Nat.lt_or_ge l.length size with hlt | hge
    · rw [show l.length - size + size - 1 + size = (size - 1) + size by omega,
        show l.length + size - 1 = (l.length - 1) + size by omega, Nat.add_div_right _ hpos,
        Nat.add_div_right _ hpos, Nat.div_eq_of_lt (by omega), Nat.div_eq_of_lt (by omega)]
    · rw [show l.length - size + size - 1 + size = l.length + size - 1 by omega]

theorem take_range' (start n room : Nat) :
    (List.range' start n).take room = List.range' start (min room n) := by
  refine List.ext_getElem (by simp) fun i _ _ => ?_
  rw [List.getElem_take, List.getElem_range', List.getElem_range']

/-- The slices of consecutive places hold consecutive places. All have the same size, but for the
last one, which has what is left. -/
theorem slices_range' (size : Nat) (start n : Nat) :
    slices size (List.range' start n) =
      (List.range (n ⌈/⌉ size)).map fun i =>
        List.range' (start + i * size) (min size (n - i * size)) := by
  rcases Nat.eq_zero_or_pos size with rfl | hsize
  · rw [slices, dif_pos (Or.inl rfl), ceilDiv_zero, List.range_zero, List.map_nil]
  induction n using Nat.strongRecOn generalizing start with
  | ind n ih =>
    rcases Nat.eq_zero_or_pos n with rfl | hn
    · rw [List.range'_zero, slices_nil, zero_ceilDiv, List.range_zero, List.map_nil]
    have hcount : n ⌈/⌉ size = (n - size) ⌈/⌉ size + 1 := by
      have hcons := length_slices size (List.range' start n)
      rw [slices_of_ne_nil hsize (by simpa using hn.ne'), List.length_cons, length_slices,
        List.length_drop, List.length_range'] at hcons
      exact hcons.symm
    rw [slices_of_ne_nil hsize (by simpa using hn.ne'), List.drop_range', take_range',
      ih (n - size) (by omega), hcount, List.range_succ_eq_map, List.map_cons, List.map_map]
    congr 1
    · simp
    · refine List.map_congr_left fun i _ => ?_
      simp only [Function.comp, Nat.succ_mul]
      congr 1 <;> omega

end

/-! ### Shares -/

theorem ceilDiv_pos {n workers : Nat} (hn : 0 < n) (h : 0 < workers) : 0 < n ⌈/⌉ workers := by
  refine Nat.pos_of_ne_zero fun hzero => ?_
  have hle : n ≤ workers * (n ⌈/⌉ workers) := le_smul_ceilDiv h
  rw [hzero, Nat.mul_zero] at hle
  omega

/-- The places of `n` routes, dealt out in order among some workers. -/
def shares (n workers : Nat) : List (List Nat) := slices (n ⌈/⌉ workers) (List.range n)

/-- There are no more shares than workers. -/
theorem length_shares_le (n : Nat) {workers : Nat} (h : 0 < workers) :
    (shares n workers).length ≤ workers := by
  rw [shares, length_slices, List.length_range]
  rcases Nat.eq_zero_or_pos (n ⌈/⌉ workers) with hsize | hsize
  · rw [hsize, ceilDiv_zero]
    exact Nat.zero_le _
  · rw [ceilDiv_le_iff_le_mul hsize, Nat.mul_comm]
    exact le_smul_ceilDiv h

/-- The shares are all places, each once and in order. -/
theorem flatten_shares (n : Nat) {workers : Nat} (h : 0 < workers) :
    (shares n workers).flatten = List.range n := by
  rcases Nat.eq_zero_or_pos n with rfl | hn
  · rw [shares, List.range_zero, slices_nil, List.flatten_nil]
  · exact flatten_slices (ceilDiv_pos hn h) _

/-- Each share holds equally many places, but the last one, which holds those left. -/
theorem shares_eq_map (n workers : Nat) :
    shares n workers = (List.range (shares n workers).length).map fun i =>
      List.range' (i * (n ⌈/⌉ workers)) (min (n ⌈/⌉ workers) (n - i * (n ⌈/⌉ workers))) := by
  have hrange := slices_range' (n ⌈/⌉ workers) 0 n
  simp only [← List.range_eq_range', Nat.zero_add] at hrange
  rw [shares, length_slices, List.length_range]
  exact hrange

namespace Plan

/-- The slices of a plan are the shares of its routes. -/
theorem workerSlices_eq_shares (p : Plan) {workers : Nat} (h : 0 < workers) :
    p.workerSlices workers = shares p.targets.length workers := by
  rcases Nat.eq_zero_or_pos p.targets.length with hn | hn
  · rw [workerSlices, shares, hn, List.range_zero, slices_nil, slices_nil]
  · rw [workerSlices, shares, sliceSize, ← Nat.add_sub_assoc h, ← Nat.ceilDiv_eq_add_pred_div,
      max_eq_left (ceilDiv_pos hn h)]

end Plan

/-! ### Runs by hand -/

/-- Nothing is selected from an empty pool. -/
theorem selectDiverse_nil {σ : Type} [RandomSource σ] (count : Nat) (s : σ) (tables : Tables) :
    selectDiverse [] count s tables = ([], s) := by
  have hgroups : Group.groups tables [] = [] := by simp [Group.groups]
  have hround : Group.firstRound count [] s = (([], []), s) := by cases count <;> rfl
  have hpadding : Group.padding count [] = [] := by
    cases count <;> simp [Group.padding, Group.paddingRound]
  simp only [selectDiverse, hgroups, hround, List.length_nil, Nat.sub_zero, hpadding,
    List.nil_append]

theorem Mulberry32.ofSeed_mod (seed : Nat) : ofSeed (seed % UInt32.size) = ofSeed seed := by
  rw [ofSeed, ofSeed]
  congr 1
  exact UInt32.ofNat_mod_size

namespace Plan

/-- A plan that is not ready gives no examples, at whatever places. -/
theorem examplesAt_of_not_isReady {σ : Type} [RandomSource σ] {p : Plan} (h : p.isReady = false)
    (indices : List Nat) (s : σ) : p.examplesAt indices s = ([], s) := by
  rw [examplesAt, h]
  rfl

/-- The pool of a run by hand: the examples of each share, in order, the seeds of the shares
following each other from `seed` on. -/
def handPool (p : Plan) (shares : List (List Nat)) (seed : Nat) : List Example :=
  (shares.mapIdx fun i share =>
    (p.examplesAt share (Mulberry32.ofSeed ((seed + i) % UInt32.size))).1).flatten

theorem handPool_of_not_isReady {p : Plan} (h : p.isReady = false) (shares : List (List Nat))
    (seed : Nat) : p.handPool shares seed = [] := by
  rw [handPool, List.flatten_eq_nil_iff]
  intro pool hpool
  obtain ⟨i, hi, rfl⟩ := List.mem_mapIdx.1 hpool
  rw [examplesAt_of_not_isReady h]

/-- A split run selects from the pool of its slices, under the seed behind those of the workers. -/
theorem generateSplit_eq_selectDiverse (p : Plan) (count workers seed : Nat) (tables : Tables) :
    p.generateSplit count workers seed tables =
      (selectDiverse (p.handPool (p.workerSlices (max workers 1)) seed) count
        (Mulberry32.ofSeed ((seed + max workers 1) % UInt32.size)) tables).1 := by
  cases hready : p.isReady with
  | false =>
    rw [handPool_of_not_isReady hready, selectDiverse_nil, generateSplit, hready]
    rfl
  | true =>
    rw [generateSplit, hready, if_pos rfl, handPool, Mulberry32.ofSeed_mod]
    simp only [Mulberry32.ofSeed_mod, examplesAt, hready, if_true]

/-- **A split run is the run by hand**: for every chart, configuration and wishes of the user, with
`n` the number of enumerated routes and `w` the number of workers, at least one. There are at most
`w` shares, they are the places of the routes in order, each of `n ⌈/⌉ w` consecutive ones but the
last, and what a split run gives is selected from the pool of the shares under the seed behind those
of the workers, through the same tables. If the plan is not ready, both are empty. -/
theorem generateSplit_eq_handRun (c : Chart) (config : Config) (constraints : UserConstraints)
    (count workers seed : Nat) (tables : Tables) :
    let p := Plan.make c config constraints
    let n := (c.enumerate config.limits).routes.length
    let w := max workers 1
    (shares n w).length ≤ w ∧
    (shares n w).flatten = List.range n ∧
    (shares n w = (List.range (shares n w).length).map fun i =>
      List.range' (i * (n ⌈/⌉ w)) (min (n ⌈/⌉ w) (n - i * (n ⌈/⌉ w)))) ∧
    p.generateSplit count workers seed tables =
      (selectDiverse (p.handPool (shares n w) seed) count
        (Mulberry32.ofSeed ((seed + w) % UInt32.size)) tables).1 ∧
    (p.isReady = false →
      p.generateSplit count workers seed tables = [] ∧ p.handPool (shares n w) seed = []) := by
  intro p n w
  have hw : 0 < w := Nat.lt_of_lt_of_le Nat.one_pos (Nat.le_max_right ..)
  have hn : p.targets.length = n := List.length_map ..
  refine ⟨length_shares_le n hw, flatten_shares n hw, shares_eq_map n w, ?_, fun hready => ?_⟩
  · rw [p.generateSplit_eq_selectDiverse, p.workerSlices_eq_shares hw, hn]
  · refine ⟨?_, handPool_of_not_isReady hready _ _⟩
    rw [generateSplit, hready]
    rfl

end Plan

end ProcedureChart
