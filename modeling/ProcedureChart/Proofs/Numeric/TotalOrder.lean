import ProcedureChart.Proofs.Numeric.Sign

/-!
# The total order

The total order of doubles places NaN and tells the two zeros apart, which comparisons do not do.
Among floats other than NaN it refines `≤` (`le_of_totalOrderKey_le`): the bits of a float without
its sign count upwards from zero to infinity (`canonical_height_unpack`), and a minus sign turns
their order around (`totalOrderKey_eq`). A sum of finite floats is no NaN (`add_isNaN`), so sums of
them are put in the order of their size by their keys.
-/

namespace ProcedureChart.Numeric

open Float.Model (UnpackedFloat Format)
open Float.Model.UnpackedFloat (Sign unpackSign unpackExponent unpackMantissa)

theorem twoPow_52 : twoPow 52 = 4503599627370496 := rfl

theorem twoPow_53 : twoPow 53 = 9007199254740992 := rfl

theorem twoPow_63 : twoPow 63 = 9223372036854775808 := rfl

/-! ### Heights -/

/-- The place of an unpacked float among those of its sign, counted from zero. -/
def height : UnpackedFloat → Nat
  | .notANumber | .zero _ => 0
  | .infinity _ => 2047 * twoPow 52
  | .finite _ mantissa exponent _ => (exponent + 1074).toNat * twoPow 52 + mantissa

theorem height_infinity (s : Sign) : height (.infinity s) = 2047 * twoPow 52 := rfl

theorem height_zero (s : Sign) : height (.zero s) = 0 := rfl

theorem height_finite (s : Sign) (m : Nat) (e : Int) (hm : 0 < m) :
    height (.finite s m e hm) = (e + 1074).toNat * twoPow 52 + m := rfl

/-- An unpacked float as the format has it: the mantissa fills its 53 places, unless the exponent is
the least one. -/
def Canonical : UnpackedFloat → Prop
  | .finite _ mantissa exponent _ =>
    -1074 ≤ exponent ∧ exponent ≤ 971 ∧ mantissa < twoPow 53 ∧
      (exponent = -1074 ∨ twoPow 52 ≤ mantissa)
  | _ => True

/-- Of two finite numbers of a format, the one that stands lower has the smaller exponent, or no
larger mantissa. -/
theorem lex_of_height_le {s t : Sign} {m m' : Nat} {e e' : Int} {hm : 0 < m} {hm' : 0 < m'}
    (hu : Canonical (.finite s m e hm)) (hv : Canonical (.finite t m' e' hm'))
    (h : height (.finite s m e hm) ≤ height (.finite t m' e' hm')) :
    ((compare e e').then (compare m m')).isLE := by
  obtain ⟨hmin, hmax, hlt, hfull⟩ := hu
  obtain ⟨hmin', hmax', hlt', hfull'⟩ := hv
  rw [twoPow_52] at hfull hfull'
  rw [twoPow_53] at hlt hlt'
  rw [height_finite, height_finite, twoPow_52] at h
  rw [Ordering.isLE_then_iff_or, Int.compare_eq_lt, Int.compare_eq_eq, Nat.isLE_compare]
  omega

/-- Of two numbers without a minus sign, the one that stands lower is not the greater one; of two
with a minus sign it is not the smaller one. -/
theorem compare_of_height_le {u v : UnpackedFloat} {s : Sign} (hu : Canonical u)
    (hv : Canonical v) (hsu : unpackedSign? u = some s) (hsv : unpackedSign? v = some s)
    (h : height u ≤ height v) :
    match s with
    | .positive => (u.compare v).any Ordering.isLE = true
    | .negative => (v.compare u).any Ordering.isLE = true := by
  cases u with
  | notANumber => cases hsu
  | infinity s =>
    obtain rfl := Option.some.inj hsu
    cases v with
    | notANumber => cases hsv
    | infinity t =>
      obtain rfl := Option.some.inj hsv
      cases t <;> rfl
    | zero t =>
      rw [height_infinity, height_zero, twoPow_52] at h
      omega
    | finite t m e hm =>
      obtain ⟨hmin, hmax, hlt, -⟩ := hv
      rw [twoPow_53] at hlt
      rw [height_infinity, height_finite, twoPow_52] at h
      omega
  | zero s =>
    obtain rfl := Option.some.inj hsu
    cases v with
    | notANumber => cases hsv
    | infinity t | finite t =>
      obtain rfl := Option.some.inj hsv
      cases t <;> rfl
    | zero t => cases s <;> rfl
  | finite s m e hm =>
    obtain rfl := Option.some.inj hsu
    cases v with
    | notANumber => cases hsv
    | infinity t =>
      obtain rfl := Option.some.inj hsv
      cases t <;> rfl
    | zero t =>
      rw [height_finite, height_zero, twoPow_52] at h
      omega
    | finite t m' e' hm' =>
      obtain rfl := Option.some.inj hsv
      have hlex := lex_of_height_le hu hv h
      cases t with
      | positive => exact hlex
      | negative =>
        dsimp only
        rw [compare_swap]
        change (((compare e e').then (compare m m')).swap.swap).isLE = true
        rwa [Ordering.swap_swap]

/-! ### The bits of a float -/

/-- What is unpacked from the bits of a float is as the format has it, and it stands at the place
that the bits without the sign count. -/
theorem canonical_height_unpack (b : BitVec Format.binary64.numBits) :
    Canonical (UnpackedFloat.unpack Format.binary64 b) ∧
      ((UnpackedFloat.unpack Format.binary64 b).isNaN = false →
        height (UnpackedFloat.unpack Format.binary64 b) =
          (unpackExponent b).toNat * twoPow 52 + (unpackMantissa b).toNat) := by
  have hfield : (unpackExponent b).toNat < 2048 := (unpackExponent b).isLt
  have hmantissa : (unpackMantissa b).toNat < twoPow 52 := (unpackMantissa b).isLt
  have hbias : Format.binary64.exponentBias = 1023 := rfl
  have hplaces : Format.binary64.mantissaBitsWithoutImplicit = 52 := rfl
  unfold UnpackedFloat.unpack
  dsimp only
  rw [hbias]
  by_cases hfull : unpackExponent b = -1#11
  · have hvalue : (unpackExponent b).toNat = 2047 := congrArg BitVec.toNat hfull
    rw [if_pos hfull]
    by_cases hzero : unpackMantissa b = 0#52
    · have hnone : (unpackMantissa b).toNat = 0 := congrArg BitVec.toNat hzero
      rw [if_pos hzero, hvalue, hnone]
      exact ⟨trivial, fun _ => rfl⟩
    · rw [if_neg hzero]
      exact ⟨trivial, fun h => by cases h⟩
  · have hne : (unpackExponent b).toNat ≠ 2047 := fun h => hfull (BitVec.eq_of_toNat_eq h)
    rw [if_neg hfull]
    by_cases hempty : unpackExponent b = 0#11
    · have hvalue : (unpackExponent b).toNat = 0 := congrArg BitVec.toNat hempty
      rw [if_pos hempty, hvalue]
      by_cases hzero : unpackMantissa b = 0#52
      · have hnone : (unpackMantissa b).toNat = 0 := congrArg BitVec.toNat hzero
        rw [dif_pos hzero, hnone]
        exact ⟨trivial, fun _ => rfl⟩
      · rw [dif_neg hzero]
        rw [twoPow_52] at hmantissa
        refine ⟨⟨by omega, by omega, by rw [twoPow_53]; omega, .inl (by omega)⟩, fun _ => ?_⟩
        rw [height_finite, twoPow_52]
        omega
    · have hpos : (unpackExponent b).toNat ≠ 0 := fun h => hempty (BitVec.eq_of_toNat_eq h)
      have happend : (1#1 ++ unpackMantissa b).toNat = 1 <<< 52 + (unpackMantissa b).toNat :=
        toNat_one_append _
      rw [if_neg hempty]
      rw [twoPow_52] at hmantissa
      refine ⟨⟨by omega, by omega, by rw [twoPow_53]; omega, .inr (by rw [twoPow_52]; omega)⟩,
        fun _ => ?_⟩
      rw [height_finite, twoPow_52]
      omega

/-- The sign bit is the leading one. -/
theorem toNat_unpackSign (b : BitVec Format.binary64.numBits) :
    (unpackSign b).toNat = b.toNat / twoPow 63 % 2 := by
  unfold unpackSign
  rw [BitVec.toNat_cast, BitVec.extractLsb_toNat, Nat.shiftRight_eq_div_pow]
  rfl

/-- The bits of a number are its height, with the sign bit in front. So numbers of one sign are
ordered like their bits. -/
theorem toNat_toBits {x : Float} (h : x.isNaN = false) :
    height x.toModel.unpack < twoPow 63 ∧
      x.toBits.toNat = height x.toModel.unpack + if isNegative x then twoPow 63 else 0 := by
  have hbits : x.toBits.toNat < 2 * twoPow 63 := x.toBits.toNat_lt
  have hheight : height x.toModel.unpack =
      exponentField x.toBits.toNat * twoPow 52 + x.toBits.toNat % twoPow 52 := by
    rw [← UInt64.toNat_toBitVec, ← toNat_unpackExponent, ← toNat_unpackMantissa]
    exact (canonical_height_unpack x.toBits.toBitVec).2 h
  obtain ⟨sign, hfirst, hsign⟩ : ∃ sign : BitVec 1,
      sign.toNat = x.toBits.toNat / twoPow 63 % 2 ∧ sign? x = some (.ofBitVec sign) :=
    ⟨_, toNat_unpackSign x.toBits.toBitVec, unpackedSign?_unpack h⟩
  have h11 : twoPow 11 = 2048 := rfl
  rw [hheight, isNegative_of_sign? hsign, exponentField, twoPow_52, twoPow_63, h11]
  rw [twoPow_63] at hbits hfirst
  generalize x.toBits.toNat = bits at hbits hfirst
  rcases BitVec.eq_zero_or_eq_one sign with rfl | rfl
  · have hclear : bits / 9223372036854775808 % 2 = 0 := hfirst.symm
    rw [if_neg (by decide)]
    omega
  · have hset : bits / 9223372036854775808 % 2 = 1 := hfirst.symm
    rw [if_pos (by decide)]
    omega

/-! ### Keys -/

/-- The key of a number is its height, turned round below a minus sign. -/
theorem totalOrderKey_eq {x : Float} (h : x.isNaN = false) :
    totalOrderKey x =
      if isNegative x then -(height x.toModel.unpack : Int) - 1 else height x.toModel.unpack := by
  obtain ⟨hlt, hbits⟩ := toNat_toBits h
  rw [totalOrderKey, hbits]
  cases isNegative x with
  | true =>
    rw [if_pos rfl, if_pos rfl, if_neg (by omega), Nat.add_sub_cancel_right]
  | false =>
    rw [if_neg Bool.false_ne_true, if_neg Bool.false_ne_true, Nat.add_zero, if_pos hlt]

/-- A number with a minus sign is not above one without. -/
theorem compare_of_signs {u v : UnpackedFloat} (hu : unpackedSign? u = some .negative)
    (hv : unpackedSign? v = some .positive) : (u.compare v).any Ordering.isLE = true := by
  cases u with
  | notANumber => cases hu
  | infinity s | zero s | finite s =>
    obtain rfl := Option.some.inj hu
    cases v with
    | notANumber => cases hv
    | infinity t | zero t | finite t =>
      obtain rfl := Option.some.inj hv
      rfl

/-- **The total order refines `≤`** on floats other than NaN. The key counts the floats up from the
most negative one, so a larger key is a larger float, or a positive zero above a negative one. -/
theorem le_of_totalOrderKey_le {x y : Float} (hx : x.isNaN = false) (hy : y.isNaN = false)
    (h : totalOrderKey x ≤ totalOrderKey y) : x ≤ y := by
  have hcx : Canonical x.toModel.unpack := (canonical_height_unpack x.toBits.toBitVec).1
  have hcy : Canonical y.toModel.unpack := (canonical_height_unpack y.toBits.toBitVec).1
  rw [totalOrderKey_eq hx, totalOrderKey_eq hy] at h
  rw [le_iff_order?]
  cases hnx : isNegative x with
  | true =>
    have hsx := sign?_of_isNegative hnx
    cases hny : isNegative y with
    | true =>
      rw [hnx, hny, if_pos rfl, if_pos rfl] at h
      exact compare_of_height_le hcy hcx (sign?_of_isNegative hny) hsx (by omega)
    | false => exact compare_of_signs hsx (sign?_of_not_isNegative hy hny)
  | false =>
    have hsx := sign?_of_not_isNegative hx hnx
    cases hny : isNegative y with
    | true =>
      rw [hnx, hny, if_neg Bool.false_ne_true, if_pos rfl] at h
      omega
    | false =>
      rw [hnx, hny, if_neg Bool.false_ne_true, if_neg Bool.false_ne_true] at h
      exact compare_of_height_le hcx hcy hsx (sign?_of_not_isNegative hy hny) (by omega)

/-! ### Sums -/

/-- Rounding makes no NaN: its outcome is 0 or a finite number, which may be too large to be packed
as one. -/
theorem round_isNaN (sign : Sign) (mantissa : Nat) (exponent : Int) :
    (UnpackedFloat.round Format.binary64 sign mantissa exponent).isNaN = false := by
  have hcut : ∀ accuracy m e, (UnpackedFloat.roundWithAccuracy Format.binary64 sign m e
      accuracy).isNaN = false := by
    intro accuracy m e
    unfold UnpackedFloat.roundWithAccuracy
    dsimp only
    generalize UnpackedFloat.shiftToTargetExponent Format.binary64 m e accuracy = first
    generalize UnpackedFloat.shiftToTargetExponent Format.binary64 _ first.2 .exact = second
    by_cases hzero : second.1.mantissa = 0
    · rw [dif_pos hzero]
      rfl
    · rw [dif_neg hzero]
      rfl
  exact hcut ..

theorem normalize_isNaN (mantissa exponent : Int) (sign : Sign) :
    (UnpackedFloat.normalize Format.binary64 mantissa exponent sign).isNaN = false := by
  unfold UnpackedFloat.normalize
  cases compare mantissa 0 with
  | lt => exact round_isNaN ..
  | eq => rfl
  | gt => exact round_isNaN ..

theorem unpacked_add_isNaN {u v : UnpackedFloat} (hu : u.isNaN = false) (hv : v.isFinite) :
    (UnpackedFloat.add Format.binary64 u v).isNaN = false := by
  cases v with
  | notANumber | infinity => cases hv
  | zero t =>
    cases u with
    | notANumber => cases hu
    | infinity | finite => rfl
    | zero s => cases s <;> cases t <;> rfl
  | finite t n f hn =>
    cases u with
    | notANumber => cases hu
    | infinity | zero => rfl
    | finite => exact normalize_isNaN ..

/-- A number and a finite float have a sum. -/
theorem add_isNaN {x y : Float} (hx : x.isNaN = false) (hy : y.isFinite) :
    (x + y).isNaN = false :=
  unpack_pack_isNaN (unpacked_add_isNaN hx hy)

end ProcedureChart.Numeric
