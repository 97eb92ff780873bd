import ProcedureChart.Proofs.Numeric.Remainder

/-!
# Signs of floats

A float is packed as a sign bit, an exponent field and a mantissa field. Packing what was unpacked
gives the same bits back (`pack_unpack`), and the sign bit alone decides the sign of what is
unpacked (`unpackedSign?_unpack`). So negation changes the sign of every float but NaN
(`sign?_neg`), and doing it twice changes nothing (`float_neg_neg`).
-/

namespace ProcedureChart.Numeric

open Float.Model (UnpackedFloat Format)
open Float.Model.UnpackedFloat (Sign packComponents unpackSign unpackExponent unpackMantissa)

variable {format : Format} {s : Sign} {u : UnpackedFloat}

/-- The sign of an unpacked float. NaN has none. -/
def unpackedSign? : UnpackedFloat → Option Sign
  | .infinity s | .zero s | .finite s .. => some s
  | .notANumber => none

/-- The sign of a float. Zero has one, NaN has none. -/
def sign? (x : Float) : Option Sign := unpackedSign? x.toModel.unpack

/-- Whether a float carries a minus sign. -/
def isNegative (x : Float) : Bool :=
  match sign? x with
  | some .negative => true
  | _ => false

/-- NaN is what has no sign. -/
theorem isNaN_eq_isNone (u : UnpackedFloat) : u.isNaN = (unpackedSign? u).isNone := by
  cases u <;> rfl

theorem isNaN_of_unpackedSign? (h : unpackedSign? u = some s) : u.isNaN = false := by
  rw [isNaN_eq_isNone, h]
  rfl

theorem exists_unpackedSign? (h : u.isNaN = false) : ∃ s, unpackedSign? u = some s := by
  rw [isNaN_eq_isNone, Option.isNone_eq_false_iff, Option.isSome_iff_exists] at h
  exact h

theorem isNaN_of_sign? {x : Float} (h : sign? x = some s) : x.isNaN = false :=
  isNaN_of_unpackedSign? h

theorem isNegative_of_sign? {x : Float} (h : sign? x = some s) :
    isNegative x = (s == .negative) := by
  rw [isNegative, h]
  cases s <;> rfl

/-- What is negative has a minus sign, and this goes for the negative zero as well. -/
theorem sign?_of_isNegative {x : Float} (h : isNegative x) : sign? x = some .negative := by
  unfold isNegative at h
  split at h
  · next hsign => exact hsign
  · cases h

/-- A number that is not negative has a plus sign. -/
theorem sign?_of_not_isNegative {x : Float} (hNaN : x.isNaN = false) (h : isNegative x = false) :
    sign? x = some .positive := by
  obtain ⟨s, hs⟩ := exists_unpackedSign? hNaN
  have hs : sign? x = some s := hs
  rw [isNegative_of_sign? hs] at h
  cases s with
  | negative => cases h
  | positive => exact hs

/-! ### The fields of packed floats -/

theorem ofBitVec_toBitVec (s : Sign) : Sign.ofBitVec s.toBitVec = s := by
  cases s <;> rfl

theorem toBitVec_ofBitVec (b : BitVec 1) : (Sign.ofBitVec b).toBitVec = b := by
  revert b
  decide

/-- The sign is the first bit of a packed float, so it is unpacked whatever the other bits are. -/
theorem unpackSign_packComponents {exponent : BitVec format.exponentBits}
    {mantissa : BitVec format.mantissaBitsWithoutImplicit} :
    unpackSign (packComponents format s exponent mantissa) = s.toBitVec := by
  refine BitVec.eq_of_getLsbD_eq fun i hi => ?_
  obtain rfl : i = 0 := by omega
  unfold unpackSign packComponents
  simp [BitVec.getLsbD_append, BitVec.getElem_append]

/-- The three fields make up the bits. Bit by bit: the lower 52 are those of the mantissa, the next
11 those of the exponent, and the last one is the sign. -/
theorem packComponents_unpack (b : BitVec Format.binary64.numBits) :
    packComponents Format.binary64 (Sign.ofBitVec (unpackSign b)) (unpackExponent b)
      (unpackMantissa b) = b := by
  unfold packComponents unpackSign unpackExponent unpackMantissa
  rw [toBitVec_ofBitVec]
  refine BitVec.eq_of_getLsbD_eq fun i hi => ?_
  have hi : i < 64 := hi
  simp only [BitVec.getLsbD_append, BitVec.getLsbD_cast, BitVec.getLsbD_extractLsb]
  split
  · next hmantissa =>
    rw [decide_eq_true (by omega), Bool.true_and, Nat.zero_add]
  · split
    · next hmantissa hexponent =>
      rw [decide_eq_true (by omega), Bool.true_and, Nat.add_sub_cancel' (by omega)]
    · next hmantissa hexponent =>
      rw [decide_eq_true (by omega), Bool.true_and]
      exact congrArg b.getLsbD (by omega)

/-- What is unpacked has the sign of the sign bit, unless it is NaN, which has no sign. -/
theorem unpackedSign?_unpack {b : BitVec format.numBits}
    (h : (UnpackedFloat.unpack format b).isNaN = false) :
    unpackedSign? (UnpackedFloat.unpack format b) = some (Sign.ofBitVec (unpackSign b)) := by
  unfold UnpackedFloat.unpack at h ⊢
  dsimp only at h ⊢
  by_cases hfull : unpackExponent b = -1#_
  · rw [if_pos hfull] at h ⊢
    by_cases hmantissa : unpackMantissa b = 0#_
    · rw [if_pos hmantissa]
      rfl
    · rw [if_neg hmantissa] at h
      cases h
  · rw [if_neg hfull]
    by_cases hempty : unpackExponent b = 0#_
    · rw [if_pos hempty]
      by_cases hmantissa : unpackMantissa b = 0#_
      · rw [dif_pos hmantissa]
        rfl
      · rw [dif_neg hmantissa]
        rfl
    · rw [if_neg hempty]
      rfl

/-- A finite number is its sign, its mantissa and its exponent. -/
theorem finite_eq {s' : Sign} {m m' : Nat} {e e' : Int} {hm : 0 < m} {hm' : 0 < m'}
    (hsign : s = s') (hmantissa : m = m') (hexponent : e = e') :
    UnpackedFloat.finite s m e hm = .finite s' m' e' hm' := by
  subst hsign hmantissa hexponent
  rfl

/-- The other sign bit changes the sign and nothing else. The other two fields are the same, so both
numbers are unpacked by the same case. -/
theorem neg_unpack (b : BitVec format.numBits) :
    (UnpackedFloat.unpack format b).neg =
      UnpackedFloat.unpack format (packComponents format (-Sign.ofBitVec (unpackSign b))
        (unpackExponent b) (unpackMantissa b)) := by
  have hsign : Sign.ofBitVec (unpackSign (packComponents format (-Sign.ofBitVec (unpackSign b))
      (unpackExponent b) (unpackMantissa b))) = -Sign.ofBitVec (unpackSign b) := by
    rw [unpackSign_packComponents, ofBitVec_toBitVec]
  generalize hb' : packComponents format (-Sign.ofBitVec (unpackSign b)) (unpackExponent b)
    (unpackMantissa b) = b' at hsign ⊢
  have hexponent : unpackExponent b' = unpackExponent b := by
    rw [← hb', UnpackedFloat.unpackExponent_packComponents]
  have hmantissa : unpackMantissa b' = unpackMantissa b := by
    rw [← hb', UnpackedFloat.unpackMantissa_packComponents]
  unfold UnpackedFloat.unpack
  dsimp only
  by_cases hfull : unpackExponent b = -1#_
  · rw [if_pos hfull, if_pos (hexponent.trans hfull), hmantissa, hsign]
    split <;> rfl
  · rw [if_neg hfull, if_neg fun h => hfull (hexponent.symm.trans h)]
    by_cases hempty : unpackExponent b = 0#_
    · rw [if_pos hempty, if_pos (hexponent.trans hempty)]
      by_cases hzero : unpackMantissa b = 0#_
      · rw [dif_pos hzero, dif_pos (hmantissa.trans hzero), hsign]
        rfl
      · rw [dif_neg hzero, dif_neg fun h => hzero (hmantissa.symm.trans h)]
        exact finite_eq hsign.symm (by rw [hmantissa]) (by rw [hexponent])
    · rw [if_neg hempty, if_neg fun h => hempty (hexponent.symm.trans h)]
      exact finite_eq hsign.symm (by rw [hmantissa]) (by rw [hexponent])

/-! ### Packing what was unpacked -/

/-- A number without its leading bit in front is unpacked and packed again. -/
theorem pack_subnormal {mantissa : BitVec 52} (hpos : 0 < mantissa.toNat) :
    UnpackedFloat.pack Format.binary64 (.finite s mantissa.toNat (-1074) hpos) =
      packComponents Format.binary64 s 0#11 mantissa := by
  have hlog : mantissa.toNat.log2 < 52 := (Nat.log2_lt (Nat.ne_of_gt hpos)).2 mantissa.isLt
  have hbits : ¬mantissa.toNat.log2 + 1 = Format.binary64.mantissaBits :=
    Nat.ne_of_lt (Nat.succ_lt_succ hlog)
  unfold UnpackedFloat.pack
  dsimp only
  rw [if_neg (by decide), if_neg hbits, BitVec.ofNat_toNat, BitVec.setWidth_eq]

/-- A mantissa with its leading bit put back counts 2 ^ 52 more. -/
theorem toNat_one_append (mantissa : BitVec 52) :
    (1#1 ++ mantissa).toNat = 1 <<< 52 + mantissa.toNat := by
  rw [BitVec.toNat_append, ← Nat.shiftLeft_add_eq_or_of_lt mantissa.isLt]
  rfl

/-- A number with its leading bit in front is packed without it. The exponent is that of the field,
shifted by the bias and the 52 places. -/
theorem pack_normal {exponent : BitVec 11} {mantissa : BitVec 52} (hfull : exponent ≠ -1#11)
    (hpos : 0 < (1#1 ++ mantissa).toNat) :
    UnpackedFloat.pack Format.binary64
        (.finite s (1#1 ++ mantissa).toNat ((exponent.toNat : Int) - 1075) hpos) =
      packComponents Format.binary64 s exponent mantissa := by
  have hlt : mantissa.toNat < 2 ^ 52 := mantissa.isLt
  have hvalue := toNat_one_append mantissa
  have hlog : (1#1 ++ mantissa).toNat.log2 = 52 :=
    (Nat.log2_eq_iff (Nat.ne_of_gt hpos)).2 (by rw [hvalue]; omega)
  have hfield : ((exponent.toNat : Int) - 1075 + (1023 : Nat) + (52 : Nat)).toNat =
      exponent.toNat := by omega
  have hne : exponent.toNat ≠ 2047 := fun h => hfull (BitVec.eq_of_toNat_eq h)
  have hsmall : ¬2 ^ 11 ≤ exponent.toNat + 1 := by
    have := exponent.isLt
    omega
  have hmantissa : BitVec.ofNat 52 (1#1 ++ mantissa).toNat = mantissa := by
    refine BitVec.eq_of_toNat_eq ?_
    rw [BitVec.toNat_ofNat, hvalue]
    omega
  have hbias : Format.binary64.exponentBias = 1023 := rfl
  have hbits : 52 + 1 = Format.binary64.mantissaBits := rfl
  unfold UnpackedFloat.pack
  dsimp only
  rw [hbias, hlog, hfield, if_neg hsmall, if_pos hbits, hmantissa, BitVec.ofNat_toNat,
    BitVec.setWidth_eq]

/-- Packing what was unpacked gives the same bits back, if a NaN has the bits of the one NaN. There
is a case for each way in which bits are read. -/
theorem pack_unpack {b : BitVec Format.binary64.numBits} (hvalid : Format.binary64.Valid b) :
    UnpackedFloat.pack Format.binary64 (UnpackedFloat.unpack Format.binary64 b) = b := by
  have hfields := packComponents_unpack b
  have hbias : Format.binary64.exponentBias = 1023 := rfl
  unfold UnpackedFloat.unpack
  dsimp only
  rw [hbias]
  by_cases hfull : unpackExponent b = -1#11
  · rw [if_pos hfull]
    by_cases hmantissa : unpackMantissa b = 0#52
    · rw [if_pos hmantissa]
      rw [hfull, hmantissa] at hfields
      exact hfields
    · rw [if_neg hmantissa]
      exact (hvalid.eq_packedNaN hfull hmantissa).symm
  · rw [if_neg hfull]
    by_cases hempty : unpackExponent b = 0#11
    · rw [if_pos hempty]
      rw [hempty] at hfields ⊢
      by_cases hmantissa : unpackMantissa b = 0#52
      · rw [dif_pos hmantissa]
        rw [hmantissa] at hfields
        exact hfields
      · rw [dif_neg hmantissa]
        exact (pack_subnormal _).trans hfields
    · rw [if_neg hempty]
      exact (pack_normal hfull _).trans hfields

/-- The bits of a number are valid. -/
theorem valid_of_isNaN {b : BitVec Format.binary64.numBits}
    (h : (UnpackedFloat.unpack Format.binary64 b).isNaN = false) : Format.binary64.Valid b := by
  constructor
  intro hfull hmantissa
  unfold UnpackedFloat.unpack at h
  dsimp only at h
  rw [if_pos hfull, if_neg hmantissa] at h
  cases h

/-- **Packing undoes unpacking.** A float is known by its sign, exponent and mantissa, since there
is just one NaN. -/
theorem ofModel_pack_unpack (x : Float) : Float.ofModel (.pack x.toModel.unpack) = x := by
  obtain ⟨bits, hvalid⟩ := x
  refine congrArg Float.ofModel ((Float.Model.mk.injEq _ _ _ _).mpr ?_)
  exact congrArg UInt64.ofBitVec (pack_unpack hvalid)

/-- Packing keeps the sign, also where the number becomes 0 or infinite. -/
theorem unpackedSign?_pack (u : UnpackedFloat) :
    unpackedSign? (UnpackedFloat.unpack Format.binary64 (UnpackedFloat.pack Format.binary64 u)) =
      unpackedSign? u := by
  cases u with
  | notANumber => rfl
  | infinity s => cases s <;> rfl
  | zero s => cases s <;> rfl
  | finite s m e hm =>
    rw [unpackedSign?_unpack (unpack_pack_isNaN rfl)]
    change some _ = some s
    unfold UnpackedFloat.pack
    dsimp only
    split
    · cases s <;> rfl
    · split
      · rw [unpackSign_packComponents, ofBitVec_toBitVec]
      · rw [unpackSign_packComponents, ofBitVec_toBitVec]

/-! ### Negation -/

/-- Negation is exact. It is computed on the unpacked number and packed again, which could lose
something, but the bits of the opposite are those of a number. -/
theorem unpack_neg (x : Float) : (-x).toModel.unpack = x.toModel.unpack.neg := by
  change UnpackedFloat.unpack Format.binary64 (UnpackedFloat.pack Format.binary64
    x.toModel.unpack.neg) = _
  cases hNaN : x.toModel.unpack.neg.isNaN with
  | true =>
    cases hneg : x.toModel.unpack.neg with
    | notANumber => rfl
    | infinity | zero | finite =>
      rw [hneg] at hNaN
      cases hNaN
  | false =>
    -- the bits of the opposite are those of a number, so nothing is lost when they are packed
    have hbits : x.toModel.unpack.neg = _ :=
      @neg_unpack Format.binary64 x.toModel.toBits.toBitVec
    rw [hbits] at hNaN ⊢
    rw [pack_unpack (valid_of_isNaN hNaN)]

/-- Turning the sign twice gives it back, and no other part of a float is touched. -/
theorem neg_neg_unpacked (u : UnpackedFloat) : u.neg.neg = u := by
  have hsign : ∀ s : Sign, - -s = s := by
    intro s
    cases s <;> rfl
  cases u with
  | notANumber => rfl
  | infinity s => exact congrArg UnpackedFloat.infinity (hsign s)
  | zero s => exact congrArg UnpackedFloat.zero (hsign s)
  | finite s m e hm => exact finite_eq (hsign s) rfl rfl

/-- **Negation is its own inverse**, on all floats. For numbers this is the sign turned twice; for
NaN there is nothing to turn, and for zeros the two signs are told apart. -/
theorem float_neg_neg (x : Float) : - -x = x := by
  calc - -x
    _ = .ofModel (.pack (- -x).toModel.unpack) := (ofModel_pack_unpack _).symm
    _ = .ofModel (.pack x.toModel.unpack) := by rw [unpack_neg, unpack_neg, neg_neg_unpacked]
    _ = x := ofModel_pack_unpack x

/-- Negation changes the sign. -/
theorem sign?_neg (x : Float) : sign? (-x) = (sign? x).map (-·) := by
  rw [sign?, unpack_neg, sign?]
  cases x.toModel.unpack <;> rfl

/-- The opposite of a number is a number. -/
theorem neg_isNaN {x : Float} (h : x.isNaN = false) : (-x).isNaN = false := by
  obtain ⟨s, hs⟩ := exists_unpackedSign? h
  have hneg : sign? (-x) = some (-s) := by
    rw [sign?_neg, sign?, hs]
    rfl
  exact isNaN_of_sign? hneg

/-- The opposite of a float with a minus sign has none. -/
theorem isNegative_neg {x : Float} (h : isNegative x) : isNegative (-x) = false := by
  have hneg : sign? (-x) = some .positive := by
    rw [sign?_neg, sign?_of_isNegative h]
    rfl
  exact isNegative_of_sign? hneg

end ProcedureChart.Numeric
