import ProcedureChart.Numeric.Integral
import ProcedureChart.Proofs.Numeric.Comparison

/-!
# Remainders

A finite float has a remainder by every float other than NaN and 0 (`remainder_isNaN`). The exact
remainder is no larger than the dividend, so its exponent field is not the one of infinity and NaN.
What is not finite has none (`remainder_isNaN_of_not`).
-/

namespace ProcedureChart.Numeric

open Float.Model (UnpackedFloat Format)

/-! ### The fields of a float -/

/-- The exponent field of the bits of a float. -/
def exponentField (bits : Nat) : Nat := bits / twoPow 52 % twoPow 11

theorem toNat_unpackExponent (b : BitVec Format.binary64.numBits) :
    (UnpackedFloat.unpackExponent b).toNat = exponentField b.toNat := by
  simp only [UnpackedFloat.unpackExponent, BitVec.toNat_cast, BitVec.extractLsb_toNat,
    Nat.shiftRight_eq_div_pow]
  rfl

theorem toNat_unpackMantissa (b : BitVec Format.binary64.numBits) :
    (UnpackedFloat.unpackMantissa b).toNat = b.toNat % twoPow 52 := by
  simp only [UnpackedFloat.unpackMantissa, BitVec.toNat_cast, BitVec.extractLsb_toNat,
    Nat.shiftRight_zero]

/-- A float whose exponent field is not full is a finite number, and one whose field is full is
not. -/
theorem unpack_isFinite {b : BitVec Format.binary64.numBits} :
    (UnpackedFloat.unpack Format.binary64 b).isFinite =
      decide (UnpackedFloat.unpackExponent b ≠ -1#11) := by
  unfold UnpackedFloat.unpack
  dsimp only
  by_cases hfull : UnpackedFloat.unpackExponent b = -1#11
  · rw [if_pos hfull, decide_eq_false (fun h => h hfull)]
    split <;> rfl
  · rw [if_neg hfull, decide_eq_true hfull]
    by_cases hempty : UnpackedFloat.unpackExponent b = 0#11
    · rw [if_pos hempty]
      by_cases hmantissa : UnpackedFloat.unpackMantissa b = 0#52
      · rw [dif_pos hmantissa]
        rfl
      · rw [dif_neg hmantissa]
        rfl
    · rw [if_neg hempty]
      rfl

theorem isNaN_of_isFinite {u : UnpackedFloat} (h : u.isFinite) : u.isNaN = false := by
  cases u with
  | notANumber => cases h
  | _ => rfl

/-- Packing makes no NaN. A number that is too large becomes infinite, with an empty mantissa. -/
theorem unpack_pack_isNaN {u : UnpackedFloat} (h : u.isNaN = false) :
    (UnpackedFloat.unpack Format.binary64 (UnpackedFloat.pack Format.binary64 u)).isNaN =
      false := by
  cases u with
  | notANumber => cases h
  | infinity s => cases s <;> rfl
  | zero s => cases s <;> rfl
  | finite s m e hm =>
    unfold UnpackedFloat.pack
    dsimp only
    split
    · cases s <;> rfl
    · refine isNaN_of_isFinite ?_
      rw [unpack_isFinite, decide_eq_true_iff]
      next hsmall =>
      split
      · rw [UnpackedFloat.unpackExponent_packComponents]
        intro hfull
        have hfield := congrArg BitVec.toNat hfull
        rw [BitVec.toNat_ofNat, Nat.mod_eq_of_lt (by omega)] at hfield
        exact hsmall (Nat.le_of_eq (congrArg Nat.succ hfield.symm))
      · rw [UnpackedFloat.unpackExponent_packComponents]
        decide

theorem ofBits_isNaN {bits : UInt64} (h : exponentField bits.toNat ≠ 2047) :
    (Float.ofBits bits).isNaN = false := by
  refine unpack_pack_isNaN (isNaN_of_isFinite ?_)
  rw [unpack_isFinite, decide_eq_true_iff]
  intro hfull
  have hfield := toNat_unpackExponent bits.toBitVec
  rw [hfull] at hfield
  exact h hfield.symm

/-! ### Packing dyadic numbers -/

/-- The mantissa with its leading bit moved to place 52. It is moved down only as far as that place,
and up at most as far. -/
theorem aligned_lt {mantissa k : Nat} {shift : Int} (hlt : mantissa < twoPow (k + 1))
    (hshift : shift ≤ 52 - k) (hleft : shift < 0 → shift = 52 - k) :
    (if shift < 0 then mantissa >>> (-shift).toNat else mantissa <<< shift.toNat) < twoPow 53 := by
  split
  · next hneg =>
    have hk : k + 1 = (-shift).toNat + 53 := by have := hleft hneg; omega
    rw [hk, twoPow, Nat.pow_eq, Nat.pow_add] at hlt
    rw [Nat.shiftRight_eq_div_pow]
    exact Nat.div_lt_of_lt_mul hlt
  · next hpos =>
    rw [Nat.shiftLeft_eq]
    calc mantissa * 2 ^ shift.toNat
      _ < 2 ^ (k + 1) * 2 ^ shift.toNat := Nat.mul_lt_mul_of_pos_right hlt (Nat.two_pow_pos _)
      _ = 2 ^ (k + 1 + shift.toNat) := (Nat.pow_add ..).symm
      _ ≤ 2 ^ 53 := Nat.pow_le_pow_right Nat.two_pos (by omega)

/-- A magnitude below the largest power of two of the format has an exponent field that is not
full. -/
theorem magnitudeBits_lt {mantissa : Nat} {exponent : Int} (hexponent : minExponent ≤ exponent)
    (hmantissa : mantissa < twoPow (1024 - exponent).toNat) :
    magnitudeBits mantissa exponent < 2047 * twoPow 52 := by
  have hmin : minExponent = -1074 := rfl
  unfold magnitudeBits
  split
  · decide
  · next hzero =>
    dsimp only
    have hlog := (Nat.log2_lt hzero).2 hmantissa
    have hlt : mantissa < twoPow (mantissa.log2 + 1) := Nat.lt_log2_self
    generalize mantissa.log2 = k at hlog hlt
    generalize hshift : min (52 - (k : Int)) (exponent - minExponent) = shift
    have haligned := aligned_lt hlt (by omega : shift ≤ 52 - k) (by omega)
    generalize (if shift < 0 then mantissa >>> (-shift).toNat else mantissa <<< shift.toNat) =
      aligned at haligned
    have hfield : (exponent - shift + 1075).toNat ≤ 2046 := by omega
    generalize (exponent - shift + 1075).toNat = field at hfield
    have h53 : twoPow 53 = 2 * twoPow 52 := rfl
    have hshifted : field <<< 52 = field * twoPow 52 := Nat.shiftLeft_eq ..
    have hle : field * twoPow 52 ≤ 2046 * twoPow 52 := Nat.mul_le_mul_right _ hfield
    rw [h53] at haligned
    rw [hshifted]
    generalize twoPow 52 = unit at haligned hle ⊢
    split <;> omega

/-- A dyadic number below the largest power of two of the format is no NaN. -/
theorem Dyadic.toFloat_isNaN {d : Dyadic} (hexponent : minExponent ≤ d.exponent)
    (hmantissa : d.mantissa < twoPow (1024 - d.exponent).toNat) : d.toFloat.isNaN = false := by
  have hlt := magnitudeBits_lt hexponent hmantissa
  have h52 : twoPow 52 = 4503599627370496 := rfl
  have h63 : twoPow 63 = 9223372036854775808 := rfl
  have h11 : twoPow 11 = 2048 := rfl
  unfold toFloat
  dsimp only
  refine ofBits_isNaN ?_
  rw [UInt64.toNat_ofNat', exponentField, h52, h11, h63]
  rw [h52] at hlt
  generalize magnitudeBits d.mantissa d.exponent = bits at hlt
  split <;> omega

/-! ### Dyadic views -/

/-- The parts of a finite float are within the bounds of the format. -/
theorem dyadic?_eq_some {x : Float} {d : Dyadic} (h : dyadic? x = some d) :
    minExponent ≤ d.exponent ∧ d.exponent ≤ 971 ∧
      d.mantissa < twoPow (1024 - d.exponent).toNat := by
  have hfraction : (fields x).2.2 < twoPow 52 := Nat.mod_lt _ (Nat.two_pow_pos 52)
  have hfield : (fields x).2.1 < 2048 := Nat.mod_lt _ (Nat.two_pow_pos 11)
  unfold dyadic? at h
  split at h
  · cases h
  · next negative fraction heq =>
    cases h
    rw [heq] at hfraction
    have hle : 52 ≤ (1024 - minExponent).toNat := by decide
    have hmax : minExponent ≤ 971 := by decide
    exact ⟨Int.le_refl _, hmax,
      Nat.lt_of_lt_of_le hfraction (Nat.pow_le_pow_right Nat.two_pos hle)⟩
  · next negative field fraction hfull hempty heq =>
    cases h
    rw [heq] at hfraction hfield
    dsimp only at hfraction hfield ⊢
    have hne : field ≠ 2047 := fun h => hfull (h ▸ rfl)
    have hpos : field ≠ 0 := fun h => hempty (h ▸ rfl)
    have hmin : minExponent = -1074 := rfl
    have hle : 53 ≤ (1024 - ((field : Int) - 1075)).toNat := by omega
    refine ⟨by omega, by omega, ?_⟩
    calc fraction + twoPow 52
      _ < twoPow 52 + twoPow 52 := Nat.add_lt_add_right hfraction _
      _ ≤ twoPow (1024 - ((field : Int) - 1075)).toNat := Nat.pow_le_pow_right Nat.two_pos hle

theorem dyadic?_isSome {x : Float} (h : x.isFinite) : (dyadic? x).isSome := by
  have hfinite : (UnpackedFloat.unpack Format.binary64 x.toBits.toBitVec).isFinite := h
  rw [unpack_isFinite, decide_eq_true_iff] at hfinite
  have hfield : exponentField x.toBits.toNat ≠ 2047 := fun heq =>
    hfinite (BitVec.eq_of_toNat_eq ((toNat_unpackExponent _).trans heq))
  unfold dyadic?
  split
  · next heq => exact absurd (congrArg (·.2.1) heq) hfield
  · rfl
  · rfl

theorem unpack_eq_zero {b : BitVec Format.binary64.numBits} (hfield : exponentField b.toNat = 0)
    (hfraction : b.toNat % twoPow 52 = 0) :
    ∃ sign, UnpackedFloat.unpack Format.binary64 b = .zero sign := by
  have hexponent : UnpackedFloat.unpackExponent b = 0#11 :=
    BitVec.eq_of_toNat_eq ((toNat_unpackExponent b).trans hfield)
  have hmantissa : UnpackedFloat.unpackMantissa b = 0#52 :=
    BitVec.eq_of_toNat_eq ((toNat_unpackMantissa b).trans hfraction)
  refine ⟨.ofBitVec (UnpackedFloat.unpackSign b), ?_⟩
  unfold UnpackedFloat.unpack
  dsimp only
  rw [if_neg (by rw [hexponent]; decide), if_pos hexponent, dif_pos hmantissa]

/-- Only 0 has no digits, and it equals 0 whatever its sign. -/
theorem beq_zero_of_mantissa {x : Float} {d : Dyadic} (h : dyadic? x = some d)
    (hd : d.mantissa = 0) : (x == 0.0) = true := by
  unfold dyadic? at h
  split at h
  · cases h
  · next negative fraction heq =>
    cases h
    have hfield : exponentField x.toBits.toNat = 0 := congrArg (·.2.1) heq
    have hfraction : x.toBits.toNat % twoPow 52 = 0 := (congrArg (·.2.2) heq).trans hd
    obtain ⟨sign, hsign⟩ := unpack_eq_zero (b := x.toBits.toBitVec) hfield hfraction
    change x.toModel.unpack = .zero sign at hsign
    rw [beq_eq_order?, order?, hsign]
    rfl
  · next negative field fraction _ _ _ =>
    cases h
    exact absurd hd (Nat.ne_of_gt (Nat.add_pos_right _ (Nat.two_pow_pos 52)))

/-- **Finite floats have remainders** by all floats other than NaN and 0. A remainder is smaller
than the divisor and no larger than the dividend, so there is nothing that it could overflow. -/
theorem remainder_isNaN {x y : Float} (hx : x.isFinite) (hy : y.isNaN = false)
    (hzero : (y == 0.0) = false) : (remainder x y).isNaN = false := by
  obtain ⟨a, ha⟩ := Option.isSome_iff_exists.1 (dyadic?_isSome hx)
  unfold remainder
  rw [ha]
  cases hb : dyadic? y with
  | none =>
    dsimp only
    rw [hy]
    exact isNaN_of_isFinite hx
  | some b =>
    dsimp only
    split
    · next hmantissa =>
      rw [beq_zero_of_mantissa hb hmantissa] at hzero
      cases hzero
    · obtain ⟨hmin, hmax, hlt⟩ := dyadic?_eq_some ha
      obtain ⟨hmin', -, -⟩ := dyadic?_eq_some hb
      refine Dyadic.toFloat_isNaN (by dsimp only; omega) ?_
      dsimp only
      generalize hexponent : min a.exponent b.exponent = exponent
      refine Nat.lt_of_le_of_lt (Nat.mod_le _ _) ?_
      rw [Nat.shiftLeft_eq]
      calc a.mantissa * 2 ^ (a.exponent - exponent).toNat
        _ < 2 ^ (1024 - a.exponent).toNat * 2 ^ (a.exponent - exponent).toNat :=
          Nat.mul_lt_mul_of_pos_right hlt (Nat.two_pow_pos _)
        _ = 2 ^ ((1024 - a.exponent).toNat + (a.exponent - exponent).toNat) :=
          (Nat.pow_add ..).symm
        _ = 2 ^ (1024 - exponent).toNat := congrArg (2 ^ ·) (by omega)

/-- What is not finite has no parts: its exponent field is full. -/
theorem dyadic?_eq_none {x : Float} (h : x.isFinite = false) : dyadic? x = none := by
  have hinfinite : (UnpackedFloat.unpack Format.binary64 x.toBits.toBitVec).isFinite = false := h
  rw [unpack_isFinite, decide_eq_false_iff_not, Decidable.not_not] at hinfinite
  have hfield : exponentField x.toBits.toNat = 2047 :=
    (toNat_unpackExponent _).symm.trans (congrArg BitVec.toNat hinfinite)
  unfold dyadic?
  split
  · rfl
  · next heq =>
    have hzero : exponentField x.toBits.toNat = 0 := congrArg (·.2.1) heq
    rw [hzero] at hfield
    cases hfield
  · next field _ hfull _ heq =>
    have heq : exponentField x.toBits.toNat = field := congrArg (·.2.1) heq
    exact absurd (heq.symm.trans hfield) fun h => hfull (h ▸ rfl)

theorem nan_isNaN : nan.isNaN := by decide +kernel

/-- What is not finite has no remainder, and NaN leaves none. Together with `remainder_isNaN` it
says exactly where there is a remainder. -/
theorem remainder_isNaN_of_not {x y : Float} (h : ¬(x.isFinite = true ∧ y.isNaN = false)) :
    (remainder x y).isNaN := by
  cases hx : x.isFinite with
  | false =>
    rw [remainder, dyadic?_eq_none hx]
    cases dyadic? y <;> exact nan_isNaN
  | true =>
    have hNaN : y.isNaN := by
      rw [← Bool.not_eq_false]
      exact fun hy => h ⟨hx, hy⟩
    have hinfinite : y.isFinite = false := by
      rw [← Bool.not_eq_true]
      intro hy
      exact Bool.false_ne_true ((isNaN_of_isFinite hy).symm.trans hNaN)
    obtain ⟨a, ha⟩ := Option.isSome_iff_exists.1 (dyadic?_isSome hx)
    rw [remainder, ha, dyadic?_eq_none hinfinite]
    dsimp only
    rw [if_pos hNaN]
    exact nan_isNaN

/-- So only a finite number leaves a number over, and only if it is divided by one. -/
theorem isFinite_of_remainder {x y : Float} (h : (remainder x y).isNaN = false) :
    x.isFinite = true ∧ y.isNaN = false := by
  refine Decidable.byContradiction fun hnot => ?_
  rw [remainder_isNaN_of_not hnot] at h
  cases h

end ProcedureChart.Numeric
