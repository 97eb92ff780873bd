import ProcedureChart.Proofs.Numeric.Magnitude
import ProcedureChart.Proofs.Numeric.TotalOrder

/-!
# Floats as whole numbers

All finite floats lie on the grid of the smallest one above 0. Counted in this unit and without
their signs they are whole numbers (`units`), and what the dyadic view computes exactly is whole
number arithmetic there: packing a mantissa of at most 53 places loses nothing
(`Packs.units_toFloat`), and a remainder counts as many units as the remainder of the counts
(`units_remainder`).
-/

namespace ProcedureChart.Numeric

open Float.Model (UnpackedFloat Format)

variable {x y : Float} {d : Dyadic}

/-- The magnitude of a dyadic number that lies on the grid, counted in the unit of the grid. -/
def Dyadic.units (d : Dyadic) : Nat := d.mantissa * twoPow (d.exponent - minExponent).toNat

/-- The magnitude of a finite float, counted in the unit of the grid. -/
def units (x : Float) : Nat :=
  match dyadic? x with
  | some d => d.units
  | none => 0

/-- The units of a float are those of its parts, where it has some. -/
theorem units_of_dyadic? (h : dyadic? x = some d) : units x = d.units := by
  rw [units, h]

/-! ### Packing -/

/-- The bits of a float other than NaN and infinity are kept when they are packed. -/
theorem toBits_ofBits {bits : UInt64} (h : exponentField bits.toNat ≠ 2047) :
    (Float.ofBits bits).toBits = bits := by
  have hfinite : (UnpackedFloat.unpack Format.binary64 bits.toBitVec).isFinite := by
    rw [unpack_isFinite, decide_eq_true_iff]
    intro hfull
    have hfield := toNat_unpackExponent bits.toBitVec
    rw [hfull] at hfield
    exact h hfield.symm
  exact congrArg UInt64.ofBitVec (pack_unpack (valid_of_isNaN (isNaN_of_isFinite hfinite)))

/-- A dyadic number that is a double: it lies on the grid, its mantissa has no more places than
there is room for, and it is not too large. -/
structure Packs (d : Dyadic) : Prop where
  le_exponent : minExponent ≤ d.exponent
  exponent_le : d.exponent ≤ 971
  mantissa_lt : d.mantissa < twoPow 53

/-- What a float is read as can be packed again. -/
theorem packs_of_dyadic? (h : dyadic? x = some d) : Packs d := by
  obtain ⟨hmin, hmax, -⟩ := dyadic?_eq_some h
  refine ⟨hmin, hmax, ?_⟩
  have hfraction : (fields x).2.2 < twoPow 52 := Nat.mod_lt _ (Nat.two_pow_pos 52)
  have h53 : twoPow 53 = twoPow 52 + twoPow 52 := rfl
  unfold dyadic? at h
  split at h
  · cases h
  all_goals
    next heq =>
      cases h
      rw [heq] at hfraction
      dsimp only at hfraction ⊢
      omega

/-- Moving the leading bit of a mantissa to place 52, or as near to it as the grid allows. Nothing
is cut off, since there are no more than 53 places. -/
theorem Packs.exists_shift (h : Packs d) (hpos : 0 < d.mantissa) :
    ∃ shift : Nat, (shift : Int) ≤ d.exponent - minExponent ∧
      d.mantissa * twoPow shift < twoPow 53 ∧
      (d.mantissa * twoPow shift < twoPow 52 → d.exponent - minExponent = shift) ∧
      magnitudeBits d.mantissa d.exponent =
        if d.mantissa * twoPow shift < twoPow 52 then d.mantissa * twoPow shift
        else ((d.exponent - shift + 1075).toNat <<< 52) +
          (d.mantissa * twoPow shift - twoPow 52) := by
  have hmin := h.le_exponent
  have hlog : d.mantissa.log2 < 53 := (Nat.log2_lt (Nat.ne_of_gt hpos)).2 h.mantissa_lt
  have hle : twoPow d.mantissa.log2 ≤ d.mantissa := Nat.log2_self_le (Nat.ne_of_gt hpos)
  have hself : d.mantissa < twoPow (d.mantissa.log2 + 1) := Nat.lt_log2_self
  obtain ⟨shift, hshift⟩ : ∃ shift : Nat,
      min (52 - (d.mantissa.log2 : Int)) (d.exponent - minExponent) = shift :=
    ⟨(min (52 - (d.mantissa.log2 : Int)) (d.exponent - minExponent)).toNat, by omega⟩
  refine ⟨shift, by omega, ?_, fun hsmall => ?_, ?_⟩
  · calc d.mantissa * twoPow shift
      _ < twoPow (d.mantissa.log2 + 1) * twoPow shift :=
        Nat.mul_lt_mul_of_pos_right hself (Nat.two_pow_pos _)
      _ = twoPow (d.mantissa.log2 + 1 + shift) := (Nat.pow_add ..).symm
      _ ≤ twoPow 53 := Nat.pow_le_pow_right Nat.two_pos (by omega)
  · -- otherwise the leading bit would have reached its place
    refine Decidable.byContradiction fun hgrid => Nat.not_lt.2 ?_ hsmall
    calc twoPow 52
      _ ≤ twoPow (d.mantissa.log2 + shift) := Nat.pow_le_pow_right Nat.two_pos (by omega)
      _ = twoPow d.mantissa.log2 * twoPow shift := Nat.pow_add ..
      _ ≤ d.mantissa * twoPow shift := Nat.mul_le_mul_right _ hle
  · have haligned : d.mantissa <<< shift = d.mantissa * twoPow shift := Nat.shiftLeft_eq ..
    unfold magnitudeBits
    rw [if_neg (Nat.ne_of_gt hpos), hshift]
    dsimp only
    rw [if_neg (Int.not_lt.2 (Int.natCast_nonneg shift)), Int.toNat_natCast, haligned]

/-- The magnitude of a number whose mantissa was moved by some places. -/
theorem Dyadic.units_eq {shift rest : Nat}
    (hrest : d.exponent - minExponent = shift + rest) :
    d.units = d.mantissa * twoPow shift * twoPow rest := by
  have hplaces : (d.exponent - minExponent).toNat = shift + rest := by
    rw [hrest]
    omega
  rw [Dyadic.units, hplaces, Nat.mul_assoc]
  exact congrArg _ (Nat.pow_add ..)

/-- The bits of a double without its sign: either the exponent field is empty and the fraction
counts units, or the fraction lacks the leading bit. -/
theorem Packs.magnitudeBits_cases (h : Packs d) :
    magnitudeBits d.mantissa d.exponent < twoPow 52 ∧
        magnitudeBits d.mantissa d.exponent = d.units ∨
      ∃ field fraction, field < 2046 ∧ fraction < twoPow 52 ∧
        magnitudeBits d.mantissa d.exponent = (field + 1) * twoPow 52 + fraction ∧
        (fraction + twoPow 52) * twoPow field = d.units := by
  rcases Nat.eq_zero_or_pos d.mantissa with hzero | hpos
  · have hbits : magnitudeBits d.mantissa d.exponent = 0 := by rw [magnitudeBits, if_pos hzero]
    rw [hbits, Dyadic.units, hzero, Nat.zero_mul]
    exact .inl ⟨Nat.two_pow_pos 52, rfl⟩
  obtain ⟨shift, hshift, hlt, hgrid, hbits⟩ := h.exists_shift hpos
  have hmax := h.exponent_le
  have hmin : minExponent = -1074 := rfl
  have h53 : twoPow 53 = twoPow 52 + twoPow 52 := rfl
  by_cases hsmall : d.mantissa * twoPow shift < twoPow 52
  · left
    have hplaces : d.exponent - minExponent = shift + (0 : Nat) := by
      rw [hgrid hsmall, Int.natCast_zero, Int.add_zero]
    rw [if_pos hsmall] at hbits
    rw [hbits, Dyadic.units_eq hplaces]
    exact ⟨hsmall, (Nat.mul_one _).symm⟩
  · right
    obtain ⟨field, hfield⟩ : ∃ field : Nat, d.exponent - minExponent = shift + field :=
      ⟨(d.exponent - minExponent - shift).toNat, by omega⟩
    have hcode : (d.exponent - shift + 1075).toNat = field + 1 := by omega
    have hshifted : (field + 1) <<< 52 = (field + 1) * twoPow 52 := Nat.shiftLeft_eq ..
    rw [if_neg hsmall, hcode, hshifted] at hbits
    refine ⟨field, d.mantissa * twoPow shift - twoPow 52, by omega, ?_, hbits, ?_⟩
    · rw [h53] at hlt
      generalize twoPow 52 = unit at hlt hsmall ⊢
      omega
    · rw [Nat.sub_add_cancel (Nat.le_of_not_lt hsmall), Dyadic.units_eq hfield]

/-- The fields of a packed number are its sign and the two parts of its magnitude bits. The bits are
those of a number, so they are not replaced by those of the one NaN. -/
theorem fields_toFloat (d : Dyadic) {field fraction : Nat} (hfield : field < 2047)
    (hfraction : fraction < twoPow 52)
    (hbits : magnitudeBits d.mantissa d.exponent = field * twoPow 52 + fraction) :
    fields d.toFloat = (d.negative, field, fraction) := by
  have h11 : twoPow 11 = 2048 := rfl
  rw [twoPow_52] at hfraction hbits
  have hsum : (UInt64.ofNat ((if d.negative then twoPow 63 else 0) +
      magnitudeBits d.mantissa d.exponent)).toNat =
        (if d.negative then twoPow 63 else 0) + (field * 4503599627370496 + fraction) := by
    rw [UInt64.toNat_ofNat', hbits, twoPow_63, Nat.mod_eq_of_lt]
    split <;> omega
  have hkept : d.toFloat.toBits.toNat =
      (if d.negative then twoPow 63 else 0) + (field * 4503599627370496 + fraction) := by
    rw [Dyadic.toFloat, toBits_ofBits, hsum]
    rw [hsum, exponentField, twoPow_52, twoPow_63, h11]
    split <;> omega
  unfold fields
  rw [hkept, twoPow_52, twoPow_63, h11]
  dsimp only
  rw [Prod.mk.injEq, Prod.mk.injEq]
  cases d.negative with
  | false =>
    rw [if_neg Bool.false_ne_true]
    exact ⟨beq_false_of_ne (by omega), by omega, by omega⟩
  | true =>
    rw [if_pos rfl]
    exact ⟨beq_iff_eq.2 (by omega), by omega, by omega⟩

/-- A float with an empty exponent field lies on the grid as it is. -/
theorem dyadic?_of_subnormal {negative : Bool} {fraction : Nat}
    (h : fields x = (negative, 0, fraction)) :
    dyadic? x = some ⟨negative, fraction, minExponent⟩ := by
  unfold dyadic?
  rw [h]
  rfl

/-- A float with an exponent field that is neither empty nor full has a leading bit in front, which
is added to the fraction. -/
theorem dyadic?_of_normal {negative : Bool} {field fraction : Nat} (hfield : field < 2046)
    (h : fields x = (negative, field + 1, fraction)) :
    dyadic? x = some ⟨negative, fraction + twoPow 52, (field + 1 : Nat) - 1075⟩ := by
  unfold dyadic?
  rw [h]
  split
  · next heq =>
    have hfull : field + 1 = 2047 := congrArg (·.2.1) heq
    omega
  · next heq =>
    have hempty : field + 1 = 0 := congrArg (·.2.1) heq
    omega
  · next heq =>
    cases heq
    rfl

/-- Only finite floats have parts. -/
theorem isFinite_of_dyadic? (h : dyadic? x = some d) : x.isFinite := by
  cases hx : x.isFinite with
  | true => rfl
  | false =>
    rw [dyadic?_eq_none hx] at h
    cases h

/-- **Packing loses nothing**: the double that a dyadic number is packed into is finite and counts
as many units. Its mantissa has at most 53 places by `Packs`, so nothing is rounded off. -/
theorem Packs.units_toFloat (h : Packs d) : d.toFloat.isFinite ∧ units d.toFloat = d.units := by
  have hmin : minExponent = -1074 := rfl
  obtain ⟨read, hread, hunits⟩ : ∃ read, dyadic? d.toFloat = some read ∧ read.units = d.units := by
    rcases h.magnitudeBits_cases with
      ⟨hsmall, hbits⟩ | ⟨field, fraction, hfield, hfraction, hbits, h⟩
    · have hfields : fields d.toFloat = (d.negative, 0, magnitudeBits d.mantissa d.exponent) :=
        fields_toFloat d (by omega) hsmall (by omega)
      refine ⟨_, dyadic?_of_subnormal hfields, ?_⟩
      rw [← hbits, Dyadic.units, Int.sub_self]
      exact Nat.mul_one _
    · have hfields := fields_toFloat d (by omega) hfraction hbits
      refine ⟨_, dyadic?_of_normal hfield hfields, ?_⟩
      rw [← h, Dyadic.units]
      congr 2
      dsimp only
      omega
  exact ⟨isFinite_of_dyadic? hread, (units_of_dyadic? hread).trans hunits⟩

/-! ### Zero -/

/-- What compares equal to 0 is unpacked as a zero. -/
theorem unpack_eq_zero_of_beq (h : (x == 0.0) = true) : ∃ s, x.toModel.unpack = .zero s := by
  have horder : order? x 0.0 = some .eq := eq_of_beq h
  have hzero : (0.0 : Float).toModel.unpack = .zero .positive := rfl
  rw [order?, hzero] at horder
  cases hx : x.toModel.unpack with
  | zero s => exact ⟨s, rfl⟩
  | notANumber =>
    rw [hx] at horder
    cases horder
  | infinity s | finite s =>
    rw [hx] at horder
    cases s <;> cases horder

/-- A finite float counts no units if and only if it is 0. Both zeros count none, and this is all
that the loop for a common divisor tests. -/
theorem units_eq_zero_iff (hx : x.isFinite) : units x = 0 ↔ (x == 0.0) = true := by
  obtain ⟨d, hd⟩ := Option.isSome_iff_exists.1 (dyadic?_isSome hx)
  constructor
  · intro h
    rw [units_of_dyadic? hd, Dyadic.units, Nat.mul_eq_zero] at h
    exact beq_zero_of_mantissa hd (h.resolve_right (Nat.ne_of_gt (Nat.two_pow_pos _)))
  · intro h
    obtain ⟨s, hs⟩ := unpack_eq_zero_of_beq h
    have hNaN : x.toModel.unpack.isNaN = false := by
      rw [hs]
      rfl
    obtain ⟨-, hbits⟩ := toNat_toBits hNaN
    have hfields : ∃ negative, fields x = (negative, 0, 0) := by
      rw [fields, hbits, hs, height_zero]
      cases isNegative x
      · exact ⟨_, rfl⟩
      · exact ⟨_, rfl⟩
    obtain ⟨negative, hfields⟩ := hfields
    rw [units_of_dyadic? (dyadic?_of_subnormal hfields), Dyadic.units, Nat.zero_mul]

/-! ### Remainders -/

/-- A mantissa that is moved to the places of a smaller exponent counts as many units as before. -/
theorem Dyadic.units_of_aligned (d : Dyadic) {exponent : Int} (hmin : minExponent ≤ exponent)
    (hle : exponent ≤ d.exponent) :
    (d.mantissa <<< (d.exponent - exponent).toNat) * twoPow (exponent - minExponent).toNat =
      d.units := by
  have hsum : (d.exponent - minExponent).toNat =
      (d.exponent - exponent).toNat + (exponent - minExponent).toNat := by omega
  rw [Nat.shiftLeft_eq, Nat.mul_assoc, Dyadic.units, hsum]
  exact congrArg _ (Nat.pow_add ..).symm

/-- To the places of its own exponent it need not be moved. -/
theorem Dyadic.aligned_self (d : Dyadic) {exponent : Int} (h : d.exponent = exponent) :
    d.mantissa <<< (d.exponent - exponent).toNat = d.mantissa := by
  rw [h, Int.sub_self]
  exact Nat.shiftLeft_zero

/-- **Remainders are exact**: counted in units, what a division of finite floats leaves is what a
division of the counts leaves. It is a multiple of the smaller of the two last places and smaller
than the divisor, so a double has room for it. -/
theorem units_remainder (hx : x.isFinite) (hy : y.isFinite) (hzero : (y == 0.0) = false) :
    (remainder x y).isFinite ∧ units (remainder x y) = units x % units y := by
  obtain ⟨a, ha⟩ := Option.isSome_iff_exists.1 (dyadic?_isSome hx)
  obtain ⟨b, hb⟩ := Option.isSome_iff_exists.1 (dyadic?_isSome hy)
  obtain ⟨hmin, hmax, hlt⟩ := packs_of_dyadic? ha
  obtain ⟨hmin', hmax', hlt'⟩ := packs_of_dyadic? hb
  have hdivisor : b.mantissa ≠ 0 := by
    intro hmantissa
    rw [beq_zero_of_mantissa hb hmantissa] at hzero
    cases hzero
  rw [units_of_dyadic? ha, units_of_dyadic? hb, remainder, ha, hb]
  dsimp only
  rw [if_neg hdivisor]
  generalize hexponent : min a.exponent b.exponent = exponent
  -- what is left is smaller than both mantissas, and one of them is on the common grid already
  have hpacks : Packs ⟨a.negative, a.mantissa <<< (a.exponent - exponent).toNat %
      b.mantissa <<< (b.exponent - exponent).toNat, exponent⟩ := by
    refine ⟨by dsimp only; omega, by dsimp only; omega, ?_⟩
    dsimp only
    rcases Int.le_total a.exponent b.exponent with hle | hle
    · rw [a.aligned_self (by omega)]
      exact Nat.lt_of_le_of_lt (Nat.mod_le _ _) hlt
    · rw [b.aligned_self (by omega)]
      exact Nat.lt_trans (Nat.mod_lt _ (Nat.pos_of_ne_zero hdivisor)) hlt'
  obtain ⟨hfinite, hunits⟩ := hpacks.units_toFloat
  refine ⟨hfinite, hunits.trans ?_⟩
  have hunit : minExponent ≤ exponent := by omega
  rw [Dyadic.units, ← a.units_of_aligned hunit (by omega), ← b.units_of_aligned hunit (by omega),
    Nat.mul_mod_mul_right]

/-! ### Integer parts and magnitudes -/

/-- Cutting off a fractional part leaves a finite float finite, and there is nothing to cut off from
the others. -/
theorem trunc_isFinite (x : Float) : (trunc x).isFinite = x.isFinite := by
  cases hx : x.isFinite with
  | false =>
    rw [trunc, roundBy, dyadic?_eq_none hx]
    exact hx
  | true =>
    obtain ⟨d, hd⟩ := Option.isSome_iff_exists.1 (dyadic?_isSome hx)
    obtain ⟨-, -, hlt⟩ := packs_of_dyadic? hd
    have hwhole : d.exponent < 0 → d.wholePart.1 < twoPow 53 := by
      intro hneg
      rw [Dyadic.wholePart, if_neg (Int.not_le.2 hneg)]
      exact Nat.lt_of_le_of_lt (Nat.shiftRight_le _ _) hlt
    have hcut : d.wholePart.2 = true → d.exponent < 0 := by
      rw [Dyadic.wholePart]
      split
      · exact fun h => absurd h Bool.false_ne_true
      · next hneg => exact fun _ => Int.not_le.1 hneg
    rw [trunc, roundBy, hd]
    dsimp only
    split
    · next h =>
      have hpacks : Packs ⟨d.negative, d.wholePart.1, 0⟩ :=
        ⟨by dsimp only [minExponent]; omega, by dsimp only; omega, hwhole (hcut h)⟩
      exact hpacks.units_toFloat.1
    · exact hx

/-- A magnitude is the float or its opposite. It is defined by its sign on the unpacked number,
while both of these are floats. -/
theorem abs_eq (x : Float) : x.abs = if isNegative x then -x else x := by
  have habs : x.abs = Float.ofModel (.pack x.toModel.unpack.abs) := rfl
  rw [habs]
  cases hneg : isNegative x with
  | true =>
    have hsign := sign?_of_isNegative hneg
    rw [sign?] at hsign
    have hflip : x.toModel.unpack.abs = x.toModel.unpack.neg := by
      cases hx : x.toModel.unpack with
      | notANumber => rfl
      | infinity s | zero s | finite s =>
        rw [hx] at hsign
        cases hsign
        rfl
    rw [hflip]
    rfl
  | false =>
    have hkeep : x.toModel.unpack.abs = x.toModel.unpack := by
      cases hx : x.toModel.unpack with
      | notANumber => rfl
      | infinity s | zero s | finite s =>
        have hsign : sign? x = some s := congrArg unpackedSign? hx
        rw [isNegative_of_sign? hsign] at hneg
        cases s with
        | negative => cases hneg
        | positive => rfl
    rw [hkeep, ofModel_pack_unpack]
    rfl

/-- Without its sign, a float is finite if it was so before. -/
theorem abs_isFinite (x : Float) : x.abs.isFinite = x.isFinite := by
  rw [abs_eq]
  split
  · refine Bool.eq_iff_iff.2 ⟨fun h => ?_, neg_isFinite⟩
    rw [← float_neg_neg x]
    exact neg_isFinite h
  · rfl

/-- Without its sign, a float is 0 if it was so before. -/
theorem abs_beq_zero (x : Float) : (x.abs == 0.0) = (x == 0.0) := by
  rw [abs_eq]
  split
  · rw [beq_eq_order?, beq_eq_order?, order?, order?, unpack_neg]
    cases x.toModel.unpack with
    | infinity s | zero s | finite s => cases s <;> rfl
    | notANumber => rfl
  · rfl

end ProcedureChart.Numeric
