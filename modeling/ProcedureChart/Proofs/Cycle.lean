import Mathlib.Data.Nat.ModEq
import Mathlib.Data.Stream.Init
import ProcedureChart.Random.Mulberry

/-!
# The cycle of the states

From every seed the generator comes through all of its states before it comes back to the first
(`full_cycle`). A draw takes the state one increment further, whatever the state is, and the
increment is odd, so some number of draws makes up a distance of one (`drawsToNext`). All seeds
therefore share one cycle of words, and each begins somewhere on it: the seeds of the workers, which
follow each other, begin `drawsToNext` draws apart.
-/

namespace ProcedureChart.Mulberry32

variable {g g' : Mulberry32} {j k : Nat}

/-- The generator behind some draws. -/
def after (k : Nat) (g : Mulberry32) : Mulberry32 := (fun g => g.next.2)^[k] g

/-- The words that a generator draws. -/
def words (g : Mulberry32) : Stream' UInt32 := Stream'.corec' next g

/-! ### Draws -/

theorem state_inj : g.state = g'.state ↔ g = g' :=
  ⟨fun h => by cases g; cases g'; exact congrArg mk h, congrArg state⟩

theorem after_succ (k : Nat) (g : Mulberry32) : after (k + 1) g = after k g.next.2 :=
  Function.iterate_succ_apply _ _ _

/-- Each draw takes the state one increment further. -/
theorem state_after (k : Nat) (g : Mulberry32) :
    (after k g).state = g.state + UInt32.ofNat k * increment := by
  induction k generalizing g with
  | zero =>
    have hzero : UInt32.ofNat 0 * increment = 0 := UInt32.zero_mul
    rw [hzero, UInt32.add_zero]
    rfl
  | succ k ih =>
    have hnext : g.next.2.state = g.state + increment := rfl
    rw [after_succ, ih, hnext, UInt32.ofNat_add, UInt32.add_mul, UInt32.ofNat_one, UInt32.one_mul,
      UInt32.add_assoc, UInt32.add_comm increment]

/-- Behind some draws a generator draws the words behind the first ones. -/
theorem words_after (k : Nat) (g : Mulberry32) : words (after k g) = (words g).drop k := by
  induction k generalizing g with
  | zero => exact Stream'.drop_zero.symm
  | succ k ih =>
    have htail : (words g).tail = words g.next.2 := by
      rw [words, Stream'.corec'_eq, Stream'.tail_cons, words]
    rw [after_succ, ih, Stream'.drop_succ, htail]

/-! ### The distance of one -/

/-- So many draws take a state to the one next to it. -/
def drawsToNext : UInt32 := 0xDC58AA5D

/-- The increment is odd, so it has an inverse. -/
theorem drawsToNext_mul_increment : drawsToNext * increment = 1 := by decide +kernel

/-- Different multiples of the increment are different. -/
theorem mul_increment_inj {m n : UInt32} : m * increment = n * increment ↔ m = n := by
  constructor
  · intro h
    have hinverse (m : UInt32) : m * increment * drawsToNext = m := by
      rw [UInt32.mul_assoc, UInt32.mul_comm increment, drawsToNext_mul_increment, UInt32.mul_one]
    rw [← hinverse m, h, hinverse]
  · exact congrArg (· * increment)

theorem ofNat_eq_ofNat_iff : UInt32.ofNat j = UInt32.ofNat k ↔ j ≡ k [MOD UInt32.size] := by
  rw [← UInt32.toNat_inj, UInt32.toNat_ofNat', UInt32.toNat_ofNat']
  exact Iff.rfl

/-- Two numbers of draws lead to the same state only if whole rounds lie between them. -/
theorem after_eq_after_iff : after j g = after k g ↔ j ≡ k [MOD UInt32.size] := by
  rw [← state_inj, state_after, state_after, UInt32.add_right_inj, mul_increment_inj,
    ofNat_eq_ofNat_iff]

/-- How many draws lead from one state to another. -/
def drawsBetween (g g' : Mulberry32) : Nat := ((g'.state - g.state) * drawsToNext).toNat

/-- They do lead there. -/
theorem after_drawsBetween (g g' : Mulberry32) : after (drawsBetween g g') g = g' := by
  rw [← state_inj, state_after, drawsBetween, UInt32.ofNat_toNat, UInt32.mul_assoc,
    drawsToNext_mul_increment, UInt32.mul_one, UInt32.add_comm, UInt32.sub_add_cancel]

/-- Seeds that lie some numbers apart begin as many times the draws to the next state apart. -/
theorem after_mul_drawsToNext (seed i : Nat) :
    after (i * drawsToNext.toNat) (ofSeed seed) = ofSeed (seed + i) := by
  rw [← state_inj, state_after, UInt32.ofNat_mul, UInt32.ofNat_toNat, UInt32.mul_assoc,
    drawsToNext_mul_increment, UInt32.mul_one]
  exact (UInt32.ofNat_add seed i).symm

/-! ### The cycle -/

/-- **The states are one cycle.** After `k` draws from a seed the state is the seed and `k`
increments, modulo the number of all states. Two numbers of draws lead to the same state just if
they are congruent modulo that number. Any other seed is therefore reached in less than a round, and
its words are those of the first seed behind a fixed number of draws; for seeds that follow each
other, as those of workers do, that number is the same multiple whatever the seed is. -/
theorem full_cycle (seed : Nat) :
    (∀ k, (after k (ofSeed seed)).state.toNat = (seed + k * 0x6D2B79F5) % UInt32.size) ∧
    (∀ j k, after j (ofSeed seed) = after k (ofSeed seed) ↔ j ≡ k [MOD UInt32.size]) ∧
    (∀ seed', ∃ n < UInt32.size, after n (ofSeed seed) = ofSeed seed' ∧
      words (ofSeed seed') = (words (ofSeed seed)).drop n) ∧
    ∀ i, words (ofSeed (seed + i)) = (words (ofSeed seed)).drop (i * drawsToNext.toNat) := by
  refine ⟨fun k => ?_, fun j k => after_eq_after_iff, fun seed' => ?_, fun i => ?_⟩
  · have hstate : (after k (ofSeed seed)).state = UInt32.ofNat (seed + k * 0x6D2B79F5) := by
      rw [state_after, UInt32.ofNat_add, UInt32.ofNat_mul]
      rfl
    rw [hstate, UInt32.toNat_ofNat']
  · refine ⟨drawsBetween (ofSeed seed) (ofSeed seed'), UInt32.toNat_lt_size _,
      after_drawsBetween _ _, ?_⟩
    rw [← words_after, after_drawsBetween]
  · rw [← words_after, after_mul_drawsToNext]

end ProcedureChart.Mulberry32
