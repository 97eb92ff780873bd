import Mathlib.Data.Nat.GCD.Basic
import ProcedureChart.Expr.Function
import ProcedureChart.Proofs.Loop
import ProcedureChart.Proofs.Numeric.Units

/-!
# Where Euclid's loop ends

Counted in units, the loop on two finite floats is Euclid's algorithm on whole numbers, so it ends
with their greatest common divisor (`exists_ends_divisorTurn`). On an infinite float it ends only if
the other one is 0: an infinite dividend leaves NaN, and no loop that has come to NaN ends
(`isNaN_of_ends`). Together this is where the search for a divisor comes back
(`divisor?_isSome_iff`).
-/

namespace ProcedureChart.Expr.Function

open Numeric

variable {a b r x y : Float}

/-! ### The loop -/

/-- The loop is over once nothing is left to divide by, and what was divided by last is the
divisor. -/
theorem divisorTurn_of_zero (h : (b == 0.0) = true) : divisorTurn (a, b) = .inl a := if_pos h

/-- Otherwise it goes on with the remainder. NaN is not 0, so it goes on with that as well. -/
theorem divisorTurn_of_ne_zero (h : (b == 0.0) = false) :
    divisorTurn (a, b) = .inr (b, remainder a b) := if_neg (Bool.eq_false_iff.1 h)

/-- A loop that ends has the result that it ends with. Of one that goes on forever nothing is known
but that each of its states has the same result as the next one. -/
theorem divisorLoop_of_ends {state : Float × Float} (h : Loop.Ends divisorTurn state r) :
    divisorLoop state.1 state.2 = r := by
  induction h using Loop.Ends.induct with
  | here hturn => rw [divisorLoop, repeatM_eq_of_monadTail, repeatM.body, hturn]; rfl
  | after hturn hends ih =>
    rw [divisorLoop, repeatM_eq_of_monadTail, repeatM.body, hturn]
    exact ih

/-- **Euclid's loop ends on finite floats**, with the greatest common divisor of what they count.
Each turn leaves a smaller remainder, and remainders of finite floats are exact, so the counts go
through the turns of the algorithm on natural numbers. -/
theorem exists_ends_divisorTurn (ha : a.isFinite) (hb : b.isFinite) :
    ∃ r, Loop.Ends divisorTurn (a, b) r ∧ r.isFinite ∧
      units r = Nat.gcd (units a) (units b) := by
  induction hn : units b using Nat.strongRecOn generalizing a b with
  | ind n ih =>
    subst hn
    cases hzero : b == 0.0 with
    | true =>
      refine ⟨a, .here (divisorTurn_of_zero hzero), ha, ?_⟩
      rw [(units_eq_zero_iff hb).2 hzero, Nat.gcd_zero_right]
    | false =>
      have hpos : 0 < units b := Nat.pos_of_ne_zero fun h =>
        Bool.eq_false_iff.1 hzero ((units_eq_zero_iff hb).1 h)
      obtain ⟨hfinite, hunits⟩ := units_remainder ha hb hzero
      obtain ⟨r, hends, hr, hgcd⟩ :=
        ih (units (remainder a b)) (hunits ▸ Nat.mod_lt _ hpos) hb hfinite rfl
      refine ⟨r, .after (divisorTurn_of_ne_zero hzero) hends, hr, ?_⟩
      rw [hgcd, hunits, Nat.gcd_comm, ← Nat.gcd_rec, Nat.gcd_comm]

/-- **A loop that has come to NaN never ends**: NaN is not 0, and the next remainder is NaN again.
Followed from its end, a loop that ends has never had NaN to divide by. -/
theorem isNaN_of_ends {state : Float × Float} (h : Loop.Ends divisorTurn state r) :
    state.2.isNaN = false := by
  induction h using Loop.Ends.induct with
  | @here state hturn =>
    obtain ⟨a, b⟩ := state
    cases hzero : b == 0.0 with
    | true =>
      obtain ⟨s, hs⟩ := unpack_eq_zero_of_beq hzero
      change b.toModel.unpack.isNaN = false
      rw [hs]
      rfl
    | false =>
      rw [divisorTurn_of_ne_zero hzero] at hturn
      cases hturn
  | @after state next hturn hends ih =>
    obtain ⟨a, b⟩ := state
    cases hzero : b == 0.0 with
    | true =>
      rw [divisorTurn_of_zero hzero] at hturn
      cases hturn
    | false =>
      rw [divisorTurn_of_ne_zero hzero] at hturn
      cases hturn
      exact (isFinite_of_remainder ih).2

/-- Nothing finite is divided by an infinite number: all of it is left over. -/
theorem remainder_of_isInf {a b : Float} (ha : a.isFinite) (hNaN : b.isNaN = false)
    (hb : b.isFinite = false) : remainder a b = a := by
  obtain ⟨d, hd⟩ := Option.isSome_iff_exists.1 (dyadic?_isSome ha)
  rw [remainder, hd, dyadic?_eq_none hb]
  dsimp only
  rw [if_neg (Bool.eq_false_iff.1 hNaN)]

/-- What is equal to 0 is finite, whatever its sign. -/
theorem isFinite_of_beq_zero (h : (x == 0.0) = true) : x.isFinite := by
  obtain ⟨s, hs⟩ := unpack_eq_zero_of_beq h
  change x.toModel.unpack.isFinite = true
  rw [hs]
  rfl

/-- On numbers the loop ends if one of them is 0 or both are finite, and nowhere else. An infinite
number may be left over, or have nothing left over but NaN, and from NaN the loop does not come
back. -/
theorem exists_ends_iff (hb : b.isNaN = false) :
    (∃ r, Loop.Ends divisorTurn (a, b) r) ↔
      (a == 0.0) = true ∨ (b == 0.0) = true ∨ a.isFinite ∧ b.isFinite := by
  cases hzero : b == 0.0 with
  | true => simpa using ⟨a, .here (divisorTurn_of_zero hzero)⟩
  | false =>
    have hfirst := divisorTurn_of_ne_zero (a := a) hzero
    constructor
    · rintro ⟨r, hends⟩
      rw [Loop.Ends.iff_of_turn hfirst] at hends
      have hNaN := isNaN_of_ends hends
      have ha := (isFinite_of_remainder hNaN).1
      cases hfinite : b.isFinite with
      | true => exact .inr (.inr ⟨ha, rfl⟩)
      | false =>
        -- the dividend is left as it is, and it is the divisor of the next turn
        left
        rw [remainder_of_isInf ha hb hfinite] at hends
        rw [← Bool.not_eq_false]
        intro hne
        rw [Loop.Ends.iff_of_turn (divisorTurn_of_ne_zero hne)] at hends
        have hNaN := isNaN_of_ends hends
        rw [(isFinite_of_remainder hNaN).1] at hfinite
        cases hfinite
    · rintro (ha | hb | ⟨ha, hb⟩)
      · cases hfinite : b.isFinite with
        | true =>
          obtain ⟨r, hends, -⟩ := exists_ends_divisorTurn (isFinite_of_beq_zero ha) hfinite
          exact ⟨r, hends⟩
        | false =>
          rw [remainder_of_isInf (isFinite_of_beq_zero ha) hb hfinite] at hfirst
          exact ⟨b, .after hfirst (.here (divisorTurn_of_zero ha))⟩
      · cases hb
      · obtain ⟨r, hends, -⟩ := exists_ends_divisorTurn ha hb
        exact ⟨r, hends⟩

/-! ### The divisor -/

/-- The divisor of two numbers, if the search for it comes back. -/
noncomputable def divisor? (x y : Float) : Option Float :=
  if x.isNaN || y.isNaN then some nan
  else Loop.result? divisorTurn ((trunc x).abs, (trunc y).abs)

/-- What the search comes back with is the common divisor. -/
theorem commonDivisor_of_divisor? (h : divisor? x y = some r) : commonDivisor x y = r := by
  rw [divisor?] at h
  rw [commonDivisor]
  split at h
  · next hNaN =>
    rw [if_pos hNaN]
    exact Option.some.inj h
  · next hnumbers =>
    rw [if_neg hnumbers]
    exact divisorLoop_of_ends (Loop.result?_eq_some_iff.1 h)

/-- The integer part of a number without its sign is a number. -/
theorem trunc_abs_isNaN (h : x.isNaN = false) : (trunc x).abs.isNaN = false := by
  have htrunc : (trunc x).isNaN = false := by
    cases hx : x.isFinite with
    | true =>
      rw [← trunc_isFinite] at hx
      exact isNaN_of_isFinite hx
    | false =>
      rw [trunc, roundBy, dyadic?_eq_none hx]
      exact h
  rw [abs_eq]
  split
  · exact neg_isNaN htrunc
  · exact htrunc

/-- **Where a divisor is found**: with NaN, where one of the integer parts is 0, and where both
arguments are finite. So the search does not end for an infinite argument and another one that is a
number and not a fraction below 1. -/
theorem divisor?_isSome_iff (x y : Float) :
    (divisor? x y).isSome ↔
      x.isNaN ∨ y.isNaN ∨ (trunc x == 0.0) = true ∨ (trunc y == 0.0) = true ∨
        x.isFinite ∧ y.isFinite := by
  rw [divisor?]
  cases hx : x.isNaN with
  | true => simp
  | false =>
    cases hy : y.isNaN with
    | true => simp
    | false =>
      simp only [Bool.or_false, Bool.false_eq_true, if_false, false_or]
      rw [Option.isSome_iff_exists]
      simp only [Loop.result?_eq_some_iff]
      rw [exists_ends_iff (trunc_abs_isNaN hy), abs_beq_zero, abs_beq_zero, abs_isFinite,
        abs_isFinite, trunc_isFinite, trunc_isFinite]

end ProcedureChart.Expr.Function
