import Mathlib.Algebra.Group.Nat.Defs
import ProcedureChart.Proofs.Numeric.Numeral

/-!
# Magnitudes

When an operation on floats has a finite result. A float is below `2 ^ k` if it is finite and its
mantissa stays below that power in units of its exponent (`Below`). Rounding a number may double
this bound, and a product adds the bounds of its factors. A quotient adds the places of a mantissa
if the last place of the divisor counts no less than that of 1, as is so for the powers of ten
(`isDivisor_ofScientific`), and packing a float adds them too. Integers of 64 bits are far below the
largest float (`float_ofNat_below`), so what is left of one after a few divisions is finite as
well.
-/

namespace ProcedureChart.Numeric

open Float.Model (UnpackedFloat Format totalExponent)
open Float.Model.UnpackedFloat (ExtendedMantissa Accuracy)

/-- An unpacked float is finite and below a power of two. -/
inductive Below (k : Int) : UnpackedFloat → Prop where
  | zero (sign : UnpackedFloat.Sign) : Below k (.zero sign)
  | finite (sign : UnpackedFloat.Sign) {mantissa : Nat} {exponent : Int} (hpos : 0 < mantissa)
      (hexponent : exponent ≤ k) (hmantissa : mantissa < 2 ^ (k - exponent).toNat) :
      Below k (.finite sign mantissa exponent hpos)

/-- What is below a power of two is below all larger ones. -/
theorem Below.mono {k l : Int} {u : UnpackedFloat} (h : Below k u) (hle : k ≤ l) : Below l u := by
  cases h with
  | zero s => exact .zero s
  | finite s hpos he hm =>
    refine .finite s hpos (Int.le_trans he hle) (Nat.lt_of_lt_of_le hm ?_)
    exact Nat.pow_le_pow_right Nat.two_pos (by omega)

/-- A mantissa of so many places, at an exponent, is below the power of two of both together. -/
theorem below_of_lt {k e : Int} {m n : Nat} (sign : UnpackedFloat.Sign) (hpos : 0 < m)
    (hm : m < 2 ^ n) (h : e + n ≤ k) : Below k (.finite sign m e hpos) := by
  refine .finite sign hpos (by omega) (Nat.lt_of_lt_of_le hm ?_)
  exact Nat.pow_le_pow_right Nat.two_pos (by omega)

/-! ### Rounding -/

/-- Rounding aims at 53 places for the mantissa, but not below the exponent of the smallest
subnormal. -/
theorem targetExponent_eq (place : Int) :
    Format.binary64.targetExponent place = max (place - 53) (-1074) := by
  unfold Format.targetExponent
  rfl

/-- Shifting a mantissa to the right divides it. What is shifted out only counts for the
accuracy. -/
theorem mantissa_shiftRight (em : ExtendedMantissa) (n : Nat) :
    (em >>> n).mantissa = em.mantissa / 2 ^ n := by
  induction n with
  | zero => exact (Nat.div_one _).symm
  | succ n ih =>
    change (em >>> n).mantissa / 2 = _
    rw [ih, Nat.div_div_eq_div_mul, Nat.pow_succ]

theorem mantissa_ofMantissaAndAccuracy (m : Nat) (accuracy : Accuracy) :
    (ExtendedMantissa.ofMantissaAndAccuracy m accuracy).mantissa = m := by
  cases accuracy with
  | exact => rfl
  | inexact o => cases o <;> rfl

/-- Rounding adds one to a mantissa at most. -/
theorem roundedMantissa_le (em : ExtendedMantissa) : em.roundedMantissa ≤ em.mantissa + 1 := by
  unfold ExtendedMantissa.roundedMantissa
  cases em.accuracy with
  | exact => exact Nat.le_succ _
  | inexact o => cases o <;> simp only [Accuracy.roundToNearestEven] <;> omega

/-- Rounding takes nothing off a mantissa, since what was shifted out was cut off before. -/
theorem le_roundedMantissa (em : ExtendedMantissa) : em.mantissa ≤ em.roundedMantissa := by
  unfold ExtendedMantissa.roundedMantissa
  cases em.accuracy with
  | exact => exact Nat.le_refl _
  | inexact o => cases o <;> simp only [Accuracy.roundToNearestEven] <;> omega

theorem log2_le_of_lt {m n : Nat} (h : m < 2 ^ n) : m.log2 ≤ n := by
  by_cases hm : m = 0
  · rw [hm, Nat.log2_zero]
    exact Nat.zero_le _
  · exact Nat.le_of_lt ((Nat.log2_lt hm).2 h)

/-- Shifting a mantissa to its target exponent keeps it below a power of two. -/
theorem shift_lt {k e : Int} {m : Nat} (accuracy : Accuracy) (he : e ≤ k)
    (hm : m < 2 ^ (k - e).toNat) (hk : -1074 ≤ k) :
    (UnpackedFloat.shiftToTargetExponent Format.binary64 m e accuracy).2 ≤ k ∧
      (UnpackedFloat.shiftToTargetExponent Format.binary64 m e accuracy).1.mantissa <
        2 ^ (k - (UnpackedFloat.shiftToTargetExponent Format.binary64 m e accuracy).2).toNat := by
  have hlog := log2_le_of_lt hm
  unfold UnpackedFloat.shiftToTargetExponent UnpackedFloat.shiftToExponent
  dsimp only
  rw [mantissa_shiftRight, mantissa_ofMantissaAndAccuracy, targetExponent_eq, totalExponent]
  generalize hs : (max ((m.log2 : Int) + 1 + e - 53) (-1074) - e).toNat = s
  have hle : e + s ≤ k := by omega
  refine ⟨hle, Nat.div_lt_of_lt_mul ?_⟩
  rwa [← Nat.pow_add, show s + (k - (e + s)).toNat = (k - e).toNat by omega]

/-- Rounding doubles a bound at most. It may carry once, and the second shift takes off the place
that the carry has added. -/
theorem roundWithAccuracy_below {k e : Int} {m : Nat} (sign : UnpackedFloat.Sign)
    (accuracy : Accuracy) (he : e ≤ k) (hm : m < 2 ^ (k - e).toNat) (hk : -1074 ≤ k) :
    Below (k + 1) (UnpackedFloat.roundWithAccuracy Format.binary64 sign m e accuracy) := by
  obtain ⟨he₁, hm₁⟩ := shift_lt accuracy he hm hk
  unfold UnpackedFloat.roundWithAccuracy
  generalize UnpackedFloat.shiftToTargetExponent Format.binary64 m e accuracy = first at he₁ hm₁
  have hrounded : first.1.roundedMantissa < 2 ^ (k + 1 - first.2).toNat := by
    calc first.1.roundedMantissa
      _ ≤ first.1.mantissa + 1 := roundedMantissa_le _
      _ ≤ 2 ^ (k - first.2).toNat := hm₁
      _ < 2 ^ (k + 1 - first.2).toNat := Nat.pow_lt_pow_right (by decide) (by omega)
  have hsecond := shift_lt .exact (by omega : first.2 ≤ k + 1) hrounded (by omega)
  dsimp only
  generalize UnpackedFloat.shiftToTargetExponent Format.binary64 _ first.2 .exact = second
    at hsecond
  by_cases hzero : second.1.mantissa = 0
  · rw [dif_pos hzero]
    exact .zero sign
  · rw [dif_neg hzero]
    exact .finite sign _ hsecond.1 hsecond.2

/-- A mantissa of full precision is cut to that precision: `s` places are dropped, and the exponent
grows by as many. -/
theorem shift_normal {m s : Nat} {e : Int} (accuracy : Accuracy) (hle : 2 ^ (52 + s) ≤ m)
    (hlt : m < 2 ^ (53 + s)) (he : -1074 ≤ e + s) :
    2 ^ 52 ≤ (UnpackedFloat.shiftToTargetExponent Format.binary64 m e accuracy).1.mantissa ∧
      (UnpackedFloat.shiftToTargetExponent Format.binary64 m e accuracy).1.mantissa < 2 ^ 53 ∧
        (UnpackedFloat.shiftToTargetExponent Format.binary64 m e accuracy).2 = e + s := by
  have hpos : m ≠ 0 := Nat.ne_of_gt (Nat.lt_of_lt_of_le (Nat.two_pow_pos _) hle)
  have hlog : m.log2 = 52 + s :=
    (Nat.log2_eq_iff hpos).2 ⟨hle, by rwa [show 52 + s + 1 = 53 + s by omega]⟩
  have hs : (max (((52 + s : Nat) : Int) + 1 + e - 53) (-1074) - e).toNat = s := by omega
  unfold UnpackedFloat.shiftToTargetExponent UnpackedFloat.shiftToExponent
  dsimp only
  rw [mantissa_shiftRight, mantissa_ofMantissaAndAccuracy, targetExponent_eq, totalExponent, hlog,
    hs]
  refine ⟨(Nat.le_div_iff_mul_le (Nat.two_pow_pos _)).2 ?_, Nat.div_lt_of_lt_mul ?_, rfl⟩
  · rwa [← Nat.pow_add]
  · rwa [← Nat.pow_add, Nat.add_comm]

/-- A mantissa of full precision keeps it under rounding. Only the exponent may be larger by one
than the cut makes it. -/
theorem roundWithAccuracy_normal {m s : Nat} {e : Int} (sign : UnpackedFloat.Sign)
    (accuracy : Accuracy) (hle : 2 ^ (52 + s) ≤ m) (hlt : m < 2 ^ (53 + s)) (he : -1074 ≤ e + s) :
    ∃ (m' : Nat) (e' : Int) (hpos : 0 < m'),
      UnpackedFloat.roundWithAccuracy Format.binary64 sign m e accuracy =
        .finite sign m' e' hpos ∧ m'.log2 = 52 ∧ e + s ≤ e' ∧ e' ≤ e + s + 1 := by
  obtain ⟨hle₁, hlt₁, he₁⟩ := shift_normal accuracy hle hlt he
  unfold UnpackedFloat.roundWithAccuracy
  generalize UnpackedFloat.shiftToTargetExponent Format.binary64 m e accuracy = first
    at hle₁ hlt₁ he₁
  have hlower : 2 ^ 52 ≤ first.1.roundedMantissa := Nat.le_trans hle₁ (le_roundedMantissa _)
  have hupper : first.1.roundedMantissa ≤ 2 ^ 53 :=
    Nat.le_trans (roundedMantissa_le _) (Nat.succ_le_of_lt hlt₁)
  dsimp only
  generalize first.1.roundedMantissa = r at hlower hupper
  -- rounding up may carry into a further place, which the second shift drops
  obtain ⟨t, ht, hle', hlt'⟩ : ∃ t : Nat, t ≤ 1 ∧ 2 ^ (52 + t) ≤ r ∧ r < 2 ^ (53 + t) := by
    by_cases hcarry : r = 2 ^ 53
    · exact ⟨1, Nat.le_refl _, by omega, by omega⟩
    · exact ⟨0, Nat.zero_le _, by omega, by omega⟩
  obtain ⟨hle₂, hlt₂, he₂⟩ := shift_normal .exact hle' hlt' (by omega : -1074 ≤ first.2 + t)
  generalize UnpackedFloat.shiftToTargetExponent Format.binary64 r first.2 .exact = second
    at hle₂ hlt₂ he₂
  have hpos : second.1.mantissa ≠ 0 :=
    Nat.ne_of_gt (Nat.lt_of_lt_of_le (Nat.two_pow_pos 52) hle₂)
  rw [dif_neg hpos]
  exact ⟨_, _, _, rfl, (Nat.log2_eq_iff hpos).2 ⟨hle₂, hlt₂⟩, by omega, by omega⟩

/-! ### Operations -/

/-- A product adds the bounds of its factors, and one place for its rounding. Nothing is said of
bounds below the smallest subnormal, to which a small product may be rounded up. -/
theorem mul_below {k l : Int} {u v : UnpackedFloat} (hu : Below k u) (hv : Below l v)
    (hkl : -1074 ≤ k + l) : Below (k + l + 1) (UnpackedFloat.mul Format.binary64 u v) := by
  cases hu with
  | zero => cases hv <;> exact .zero _
  | @finite s m e hpos he hm =>
    cases hv with
    | zero => exact .zero _
    | @finite t n f hpos' hf hn =>
      refine roundWithAccuracy_below _ _ (Int.add_le_add he hf) ?_ hkl
      rw [show (k + l - (e + f)).toNat = (k - e).toNat + (l - f).toNat by omega, Nat.pow_add]
      exact Nat.mul_lt_mul'' hm hn

/-- An unpacked float is finite and not zero, and its last place counts no less than that of 1. -/
def isDivisor : UnpackedFloat → Bool
  | .finite _ _ exponent _ => decide (-52 ≤ exponent)
  | _ => false

/-- A quotient by a float whose last place counts no less than that of 1 is larger than the dividend
by no more than the places of a mantissa. -/
theorem div_below {k : Int} {u v : UnpackedFloat} (hu : Below k u) (hv : isDivisor v)
    (hk : -1074 ≤ k) : Below (k + 53) (UnpackedFloat.div Format.binary64 u v) := by
  cases v with
  | infinity | notANumber | zero => cases hv
  | finite t n f hn =>
    have hf : -52 ≤ f := of_decide_eq_true hv
    cases hu with
    | zero => exact .zero _
    | @finite s m e hpos he hm =>
      unfold UnpackedFloat.div UnpackedFloat.divCore
      dsimp only
      generalize hg : min (e - f) (Format.binary64.targetExponent
        (totalExponent m e - totalExponent n f)) = g
      have hg : g ≤ e - f := by omega
      have hround : ∀ accuracy, Below (k + 52 + 1) (UnpackedFloat.roundWithAccuracy
          Format.binary64 (s / t) (m <<< (e - f - g).toNat / n) g accuracy) := by
        intro accuracy
        refine roundWithAccuracy_below _ _ (by omega) ?_ (by omega)
        calc m <<< (e - f - g).toNat / n
          _ ≤ m * 2 ^ (e - f - g).toNat := by rw [Nat.shiftLeft_eq]; exact Nat.div_le_self ..
          _ < 2 ^ (k - e).toNat * 2 ^ (e - f - g).toNat :=
            Nat.mul_lt_mul_of_pos_right hm (Nat.two_pow_pos _)
          _ = 2 ^ ((k - e).toNat + (e - f - g).toNat) := (Nat.pow_add ..).symm
          _ ≤ 2 ^ (k + 52 - g).toNat := Nat.pow_le_pow_right Nat.two_pos (by omega)
      exact (hround _).mono (by omega)

/-- Rounding an integer doubles its bound at most. -/
theorem round_below {k m : Nat} (sign : UnpackedFloat.Sign) (hm : m < 2 ^ k) :
    Below (k + 1) (UnpackedFloat.round Format.binary64 sign m 0) := by
  unfold UnpackedFloat.round UnpackedFloat.decreaseExponent
  dsimp only
  generalize (0 - Format.binary64.targetExponent (totalExponent m 0)).toNat = a
  refine roundWithAccuracy_below _ _ (by omega) ?_ (by omega)
  rw [Nat.shiftLeft_eq, show ((k : Int) - (0 - a)).toNat = k + a by omega, Nat.pow_add]
  exact Nat.mul_lt_mul_of_pos_right hm (Nat.two_pow_pos _)

theorem ofNat_below {k m : Nat} (hm : m < 2 ^ k) :
    Below (k + 1) (UnpackedFloat.ofNat Format.binary64 m) := by
  unfold UnpackedFloat.ofNat UnpackedFloat.ofInt UnpackedFloat.normalize
  split
  · next h => exact absurd (Int.compare_eq_lt.1 h) (Int.not_lt.2 (Int.natCast_nonneg m))
  · exact .zero _
  · exact round_below _ hm

/-- An integer times the power of ten 0 is rounded twice, once as an integer and once as a
product. -/
theorem ofScientific_below {k m : Nat} (hm : m < 2 ^ k) :
    Below (k + 1 + 1) (UnpackedFloat.ofScientific Format.binary64 m 0) := by
  have hk : -1074 ≤ (k : Int) + 1 := by omega
  have hrange : ¬(0 : Int) < -((2 ^ Format.binary64.exponentBits : Int) + m.log2) := by
    have hbits : (2 ^ Format.binary64.exponentBits : Int) = 2048 := rfl
    rw [hbits]
    omega
  have hshift : m <<< Format.binary64.mantissaBits < 2 ^ (k + 53) := by
    rw [Nat.shiftLeft_eq, Nat.pow_add]
    exact Nat.mul_lt_mul_of_pos_right hm (Nat.two_pow_pos _)
  have hone : 10 ^ (0 : Int).toNat < 2 ^ 1 := by decide
  have hexponent : -(Format.binary64.mantissaBits : Int) + (k + 53 : Nat) ≤ k := by
    have hbits : Format.binary64.mantissaBits = 53 := rfl
    rw [hbits]
    clear hrange
    omega
  unfold UnpackedFloat.ofScientific
  by_cases hzero : m = 0
  · rw [dif_pos hzero]
    exact .zero _
  · rw [dif_neg hzero, if_neg (by decide), if_neg hrange, if_pos (Int.le_refl _)]
    exact mul_below (below_of_lt _ _ hshift hexponent) (below_of_lt _ _ hone (by decide)) hk

/-! ### Packing -/

/-- A float with an exponent field that is not full is below the power of two of that field, whether
its leading bit is stored or not. -/
theorem unpack_below {b : BitVec Format.binary64.numBits} {k : Int}
    (hfull : UnpackedFloat.unpackExponent b ≠ -1#11)
    (hfield : ((UnpackedFloat.unpackExponent b).toNat : Int) ≤ k + 1022) (hk : -1021 ≤ k) :
    Below k (UnpackedFloat.unpack Format.binary64 b) := by
  have hbias : Format.binary64.exponentBias = 1023 := rfl
  unfold UnpackedFloat.unpack
  dsimp only
  rw [if_neg hfull, hbias]
  by_cases hempty : UnpackedFloat.unpackExponent b = 0#11
  · rw [if_pos hempty]
    by_cases hmantissa : UnpackedFloat.unpackMantissa b = 0#52
    · rw [dif_pos hmantissa]
      exact .zero _
    · rw [dif_neg hmantissa, hempty]
      have hzero : (0#11).toNat = 0 := rfl
      exact below_of_lt _ _ (BitVec.isLt _) (by rw [hzero]; omega)
  · rw [if_neg hempty]
    exact below_of_lt _ _ (BitVec.isLt _) (by omega)

/-- The largest exponent that the field has room for is 971, since the full field stands for
infinity and NaN. -/
theorem exponent_le_of_unpack {b : BitVec Format.binary64.numBits} {s : UnpackedFloat.Sign}
    {m : Nat} {e : Int} {hm : 0 < m}
    (h : UnpackedFloat.unpack Format.binary64 b = .finite s m e hm) : e ≤ 971 := by
  have hbias : Format.binary64.exponentBias = 1023 := rfl
  have hlt : (UnpackedFloat.unpackExponent b).toNat < 2048 := BitVec.isLt _
  unfold UnpackedFloat.unpack at h
  dsimp only at h
  by_cases hfull : UnpackedFloat.unpackExponent b = -1#11
  · rw [if_pos hfull] at h
    by_cases hmantissa : UnpackedFloat.unpackMantissa b = 0#52
    · rw [if_pos hmantissa] at h
      cases h
    · rw [if_neg hmantissa] at h
      cases h
  · have hne : (UnpackedFloat.unpackExponent b).toNat ≠ 2047 := fun heq =>
      hfull (BitVec.eq_of_toNat_eq heq)
    rw [if_neg hfull, hbias] at h
    by_cases hempty : UnpackedFloat.unpackExponent b = 0#11
    · have hzero : (UnpackedFloat.unpackExponent b).toNat = 0 := congrArg BitVec.toNat hempty
      rw [if_pos hempty] at h
      by_cases hmantissa : UnpackedFloat.unpackMantissa b = 0#52
      · rw [dif_pos hmantissa] at h
        cases h
      · rw [dif_neg hmantissa] at h
        cases h
        omega
    · rw [if_neg hempty] at h
      cases h
      omega

/-- Packing puts the exponent of a number into the exponent field. The field is not full if the
exponent is at most 971, that of the largest floats. -/
theorem unpackExponent_pack (s : UnpackedFloat.Sign) {m : Nat} {e : Int} (hm : 0 < m)
    (he : e ≤ 971) :
    UnpackedFloat.unpackExponent (UnpackedFloat.pack Format.binary64 (.finite s m e hm)) ≠ -1#11 ∧
      (UnpackedFloat.unpackExponent
        (UnpackedFloat.pack Format.binary64 (.finite s m e hm))).toNat ≤ (e + 1075).toNat := by
  have hbias : Format.binary64.exponentBias = 1023 := rfl
  have hfield : (e + 1023 + 52).toNat = (e + 1075).toNat := by omega
  unfold UnpackedFloat.pack
  dsimp only
  rw [hbias]
  split
  · next hlarge =>
    have hlarge : 2048 ≤ (e + 1023 + 52).toNat + 1 := hlarge
    omega
  · split
    · rw [UnpackedFloat.unpackExponent_packComponents]
      refine ⟨?_, Nat.le_trans (Nat.mod_le _ _) (Nat.le_of_eq hfield)⟩
      intro hfull
      have hnat := congrArg BitVec.toNat hfull
      rw [BitVec.toNat_ofNat, Nat.mod_eq_of_lt (by omega)] at hnat
      have hnat : (e + 1023 + 52).toNat = 2047 := hnat
      omega
    · rw [UnpackedFloat.unpackExponent_packComponents]
      exact ⟨by decide, Nat.zero_le _⟩

/-- Packing a float adds the places of its mantissa to a bound. -/
theorem pack_below {k : Int} {u : UnpackedFloat} (h : Below k u) (hk : -1074 ≤ k)
    (hmax : k ≤ 971) :
    Below (k + 53) (UnpackedFloat.unpack Format.binary64
      (UnpackedFloat.pack Format.binary64 u)) := by
  cases h with
  | zero s => cases s <;> exact .zero _
  | @finite s m e hm he =>
    obtain ⟨hfull, hfield⟩ := unpackExponent_pack s hm (by omega : e ≤ 971)
    exact unpack_below hfull (by omega) (by omega)

/-- Packing keeps the exponent of a number of full precision, so such a number is fit for a divisor
before and after. -/
theorem isDivisor_pack (s : UnpackedFloat.Sign) {m : Nat} {e : Int} (hpos : 0 < m)
    (hm : m.log2 = 52) (he : -52 ≤ e) (he' : e ≤ 971) :
    isDivisor (UnpackedFloat.unpack Format.binary64
      (UnpackedFloat.pack Format.binary64 (.finite s m e hpos))) := by
  have hbias : Format.binary64.exponentBias = 1023 := rfl
  have hbits : Format.binary64.mantissaBits = 53 := rfl
  unfold UnpackedFloat.pack
  dsimp only
  rw [hbias, hbits, hm]
  generalize hfield : (e + ((1023 : Nat) : Int) + ((52 : Nat) : Int)).toNat = field
  have hlt : field < 2047 := by omega
  have htoNat : (BitVec.ofNat 11 field).toNat = field := by
    rw [BitVec.toNat_ofNat, Nat.mod_eq_of_lt (by omega)]
  have hfull : BitVec.ofNat 11 field ≠ -1#11 := by
    intro h
    have hnat : field = 2047 := htoNat.symm.trans (congrArg BitVec.toNat h)
    omega
  have hempty : BitVec.ofNat 11 field ≠ 0#11 := by
    intro h
    have hnat : field = 0 := htoNat.symm.trans (congrArg BitVec.toNat h)
    omega
  have hsmall : ¬2 ^ 11 ≤ field + 1 := by omega
  rw [if_neg hsmall, if_pos rfl]
  unfold UnpackedFloat.unpack
  dsimp only
  rw [UnpackedFloat.unpackExponent_packComponents, hbias, if_neg hfull, if_neg hempty]
  exact decide_eq_true (by rw [htoNat]; omega)

/-! ### Floats -/

/-- What is below a power of two is neither infinite nor NaN. -/
theorem isFinite_of_below {k : Int} {x : Float} (h : Below k x.toModel.unpack) : x.isFinite := by
  change x.toModel.unpack.isFinite = true
  generalize x.toModel.unpack = u at h
  cases h with
  | zero | finite => rfl

/-- The opposite of a finite float is finite. -/
theorem neg_isFinite {x : Float} (h : x.isFinite) : (-x).isFinite := by
  have hx : x.toModel.unpack.isFinite = true := h
  change (UnpackedFloat.unpack Format.binary64
    (UnpackedFloat.pack Format.binary64 x.toModel.unpack.neg)).isFinite = true
  cases hunpack : x.toModel.unpack with
  | infinity | notANumber =>
    rw [hunpack] at hx
    cases hx
  | zero s => cases s <;> rfl
  | finite s m e hm =>
    have hneg : (UnpackedFloat.finite s m e hm).neg = .finite (-s) m e hm := rfl
    obtain ⟨hfull, -⟩ := unpackExponent_pack (-s) hm (exponent_le_of_unpack hunpack)
    rw [unpack_isFinite, hneg]
    exact decide_eq_true hfull

/-- What is neither NaN nor infinite is finite. -/
theorem isFinite_of_not {x : Float} (hNaN : x.isNaN = false) (hInf : x.isInf = false) :
    x.isFinite := by
  have hNaN : x.toModel.unpack.isNaN = false := hNaN
  have hInf : x.toModel.unpack.isInf = false := hInf
  change x.toModel.unpack.isFinite = true
  cases hx : x.toModel.unpack with
  | zero | finite => rfl
  | infinity =>
    rw [hx] at hInf
    cases hInf
  | notANumber =>
    rw [hx] at hNaN
    cases hNaN

/-- A quotient by what is fit for a divisor is not much above the dividend. -/
theorem float_div_below {k : Int} {x y : Float} (hx : Below k x.toModel.unpack)
    (hy : isDivisor y.toModel.unpack) (hk : -1074 ≤ k) (hmax : k ≤ 918) :
    Below (k + 106) (x / y).toModel.unpack :=
  (pack_below (div_below hx hy hk) (by omega) (by omega)).mono (by omega)

/-- Whole numbers of 64 bits are far below the largest float. -/
theorem float_ofNat_below {n : Nat} (hn : n < 2 ^ 64) :
    Below 200 (Float.ofNat n).toModel.unpack := by
  change Below 200 (Float.ofScientific n false 0).toModel.unpack
  unfold Float.ofScientific
  split
  · -- a number of 53 bits is a float itself, multiplied by 1
    have hone : Below 1 (Float.exactlyRepresentablePowersOfTen[0]).toModel.unpack :=
      .finite .positive (by decide) (by decide) (by decide)
    have hfloat : Below (64 + 1 + 53) n.toUInt64.toFloat.toModel.unpack :=
      pack_below (ofNat_below (UInt64.toNat_lt _)) (by decide) (by decide)
    exact (pack_below (mul_below hfloat hone (by decide)) (by decide) (by decide)).mono (by decide)
  · exact (pack_below (ofScientific_below hn) (by decide) (by decide)).mono (by decide)

/-- The powers of ten within the range of floats are fit for divisors. The small ones are in a
table, and the largest is computed; the others are rounded, which keeps their exponent or raises it
by one. -/
theorem isDivisor_ofScientific {n : Nat} (h : n ≤ 308) :
    isDivisor (Float.ofScientific 1 false n).toModel.unpack := by
  by_cases hsmall : n ≤ 22
  · have htable : ∀ n < 23, isDivisor (Float.ofScientific 1 false n).toModel.unpack := by
      decide +kernel
    exact htable n (Nat.lt_succ_of_le hsmall)
  by_cases hlast : n = 308
  · rw [hlast]
    decide +kernel
  have hlog : (10 ^ n).log2 < 1020 := by
    refine (Nat.log2_lt (Nat.ne_of_gt (Nat.pow_pos (by decide)))).2 ?_
    calc 10 ^ n
      _ ≤ 10 ^ 307 := Nat.pow_le_pow_right (by decide) (by omega)
      _ < 2 ^ 1020 := by decide +kernel
  have hpower : 2 ^ (10 ^ n).log2 ≤ 10 ^ n :=
    Nat.log2_self_le (Nat.ne_of_gt (Nat.pow_pos (by decide)))
  have hpower' : 10 ^ n < 2 ^ ((10 ^ n).log2 + 1) := Nat.lt_log2_self
  generalize hs : (10 ^ n).log2 = s at hlog hpower hpower'
  have hlower : 2 ^ (52 + (s + 1)) ≤ 1 <<< 53 * 10 ^ n := by
    rw [show 52 + (s + 1) = 53 + s by omega, Nat.pow_add]
    exact Nat.mul_le_mul_left _ hpower
  have hupper : 1 <<< 53 * 10 ^ n < 2 ^ (53 + (s + 1)) := by
    rw [Nat.pow_add]
    exact Nat.mul_lt_mul_of_pos_left hpower' (Nat.two_pow_pos 53)
  obtain ⟨m, e, hpos, hround, hm, he, he'⟩ := roundWithAccuracy_normal (e := -53 + 0)
    (.positive * .positive) .exact hlower hupper (by omega)
  have hscientific : UnpackedFloat.ofScientific Format.binary64 1 n =
      .finite (.positive * .positive) m e hpos := by
    have hbits : (2 ^ Format.binary64.exponentBits : Int) = 2048 := rfl
    unfold UnpackedFloat.ofScientific
    rw [dif_neg (by decide), if_neg (by rw [hbits]; omega), if_neg (by rw [hbits]; omega),
      if_pos (Int.natCast_nonneg n)]
    exact hround
  unfold Float.ofScientific
  rw [dif_neg fun h => hsmall h.2]
  change isDivisor (UnpackedFloat.unpack Format.binary64 (UnpackedFloat.pack Format.binary64
    (UnpackedFloat.ofScientific Format.binary64 1 n)))
  rw [hscientific]
  exact isDivisor_pack _ _ hm (by omega) (by omega)
end ProcedureChart.Numeric
