import ProcedureChart.Numeric.Reading
import ProcedureChart.Proofs.Numeric.Sign

/-!
# The values of numerals

Digits are read as a float without a minus sign (`sign?_of_readUnsigned`), so not as NaN. The
nearest double of a decimal number is a quotient or a product of floats with a plus sign, the other
of which is finite and not 0, rounded; neither the operations nor the rounding change the sign.
-/

namespace ProcedureChart.Numeric

open Float.Model (UnpackedFloat Format)

variable {u v : UnpackedFloat}

/-! ### Operations that keep the sign -/

/-- Rounding does not touch the sign, not even where it rounds to 0. -/
theorem unpackedSign?_roundWithAccuracy (format : Format) (sign : UnpackedFloat.Sign)
    (mantissa : Nat) (exponent : Int) (accuracy : UnpackedFloat.Accuracy) :
    unpackedSign? (UnpackedFloat.roundWithAccuracy format sign mantissa exponent accuracy) =
      some sign := by
  unfold UnpackedFloat.roundWithAccuracy
  dsimp only
  generalize UnpackedFloat.shiftToTargetExponent format _ _ .exact = second
  by_cases hzero : second.1.mantissa = 0
  · rw [dif_pos hzero]
    rfl
  · rw [dif_neg hzero]
    rfl

/-- An integer that is not negative has a plus sign, and so has 0. -/
theorem unpackedSign?_ofNat (format : Format) (n : Nat) :
    unpackedSign? (UnpackedFloat.ofNat format n) = some .positive := by
  unfold UnpackedFloat.ofNat UnpackedFloat.ofInt UnpackedFloat.normalize
  split
  · next h => exact absurd (Int.compare_eq_lt.1 h) (Int.not_lt.2 (Int.natCast_nonneg n))
  · rfl
  · exact unpackedSign?_roundWithAccuracy ..

/-- Whether an unpacked float is a finite number other than 0. -/
def isScale : UnpackedFloat → Bool
  | .finite .. => true
  | _ => false

/-- A product is NaN only for an infinite factor beside a zero, and a scale is neither. -/
theorem mul_isNaN (format : Format) (hu : u.isNaN = false) (hv : isScale v) :
    (UnpackedFloat.mul format u v).isNaN = false := by
  cases v with
  | finite =>
    cases u with
    | notANumber => cases hu
    | infinity | zero => rfl
    | finite => exact isNaN_of_unpackedSign? (unpackedSign?_roundWithAccuracy ..)
  | _ => cases hv

/-- Whether an unpacked float is a finite number above 0. -/
def isPositive : UnpackedFloat → Bool
  | .finite .positive .. => true
  | _ => false

/-- A positive factor leaves the sign as it is. -/
theorem unpackedSign?_mul (format : Format) (hv : isPositive v) :
    unpackedSign? (UnpackedFloat.mul format u v) = unpackedSign? u := by
  rcases v with _ | _ | _ | ⟨_ | _, n, f, hn⟩
  case finite.positive =>
    cases u with
    | notANumber => rfl
    | infinity s | zero s => cases s <;> rfl
    | finite s => cases s <;> exact unpackedSign?_roundWithAccuracy ..
  all_goals cases hv

/-- So does a positive divisor. -/
theorem unpackedSign?_div (format : Format) (hv : isPositive v) :
    unpackedSign? (UnpackedFloat.div format u v) = unpackedSign? u := by
  rcases v with _ | _ | _ | ⟨_ | _, n, f, hn⟩
  case finite.positive =>
    cases u with
    | notANumber => rfl
    | infinity s | zero s => cases s <;> rfl
    | finite s => cases s <;> exact unpackedSign?_roundWithAccuracy ..
  all_goals cases hv

theorem unpackedSign?_ite {s : UnpackedFloat.Sign} {p : Prop} [Decidable p]
    (hu : unpackedSign? u = some s) (hv : unpackedSign? v = some s) :
    unpackedSign? (if p then u else v) = some s := by
  split
  · exact hu
  · exact hv

/-- A decimal without a sign has a plus sign, at whichever of its powers of ten it is rounded. -/
theorem unpackedSign?_ofScientific (format : Format) (mantissa : Nat) (exponent : Int) :
    unpackedSign? (UnpackedFloat.ofScientific format mantissa exponent) = some .positive := by
  unfold UnpackedFloat.ofScientific
  by_cases hzero : mantissa = 0
  · rw [dif_pos hzero]
    rfl
  · rw [dif_neg hzero]
    -- a magnitude out of the format's range at either end, then one within it
    refine unpackedSign?_ite rfl <| unpackedSign?_ite rfl <| unpackedSign?_ite ?_ ?_
    · exact unpackedSign?_mul format rfl
    · exact unpackedSign?_div format rfl

/-! ### Floats -/

theorem sign?_toFloat (n : UInt64) : sign? n.toFloat = some .positive :=
  (unpackedSign?_pack _).trans (unpackedSign?_ofNat ..)

theorem sign?_mul {x y : Float} (hy : isPositive y.toModel.unpack) : sign? (x * y) = sign? x :=
  (unpackedSign?_pack _).trans (unpackedSign?_mul _ hy)

theorem sign?_div {x y : Float} (hy : isPositive y.toModel.unpack) : sign? (x / y) = sign? x :=
  (unpackedSign?_pack _).trans (unpackedSign?_div _ hy)

/-- The powers of ten that are doubles are finite and above 0. -/
theorem isPositive_power : ∀ x ∈ Float.exactlyRepresentablePowersOfTen.toList,
    isPositive x.toModel.unpack := by
  decide +kernel

theorem sign?_ofScientific (mantissa : Nat) (negative : Bool) (exponent : Nat) :
    sign? (Float.ofScientific mantissa negative exponent) = some .positive := by
  unfold Float.ofScientific
  split
  · next h =>
    have hbound : exponent < Float.exactlyRepresentablePowersOfTen.size := Nat.lt_succ_of_le h.2
    have hpower := isPositive_power Float.exactlyRepresentablePowersOfTen[exponent]
      (Array.getElem_mem_toList _)
    dsimp only
    split
    · exact (sign?_div hpower).trans (sign?_toFloat _)
    · exact (sign?_mul hpower).trans (sign?_toFloat _)
  · exact (unpackedSign?_pack _).trans (unpackedSign?_ofScientific ..)

/-! ### Numerals -/

/-- The float nearest to a decimal has a plus sign, be it 0, infinity or a number in between. -/
theorem sign?_nearest (mantissa : Nat) (exponent : Int) :
    sign? (nearest mantissa exponent) = some .positive := by
  unfold nearest
  dsimp only
  split
  · exact sign?_ofScientific 0 true 1
  split
  · exact sign?_of_not_isNegative (by decide +kernel) (by decide +kernel)
  split
  · exact sign?_ofScientific ..
  · exact sign?_ofScientific ..

/-- **A numeral without a sign has a plus sign**, however many digits it has and whatever its
exponent. If all of its digits are zeros, or it is too small, it is the positive zero. -/
theorem sign?_ofDigits (whole fraction : List Char) (exponent : Int) :
    sign? (ofDigits whole fraction exponent) = some .positive := by
  unfold ofDigits
  dsimp only
  split
  · exact sign?_nearest ..
  · exact sign?_nearest ..

/-- **Digits are a number without a minus sign**, however many they are. So a negative number is
written with a minus sign in front of it, and this is the only one that it has. -/
theorem sign?_of_readUnsigned {cs : List Char} {x : Float} (h : readUnsigned cs = some x) :
    sign? x = some .positive := by
  unfold readUnsigned at h
  dsimp only at h
  split at h
  all_goals
    split at h
    · cases h
    · obtain ⟨k, -, rfl⟩ := Option.map_eq_some_iff.1 h
      exact sign?_ofDigits ..

/-- Digits are not read as NaN. -/
theorem readUnsigned_isNaN {cs : List Char} {x : Float} (h : readUnsigned cs = some x) :
    x.isNaN = false :=
  isNaN_of_sign? (sign?_of_readUnsigned h)

end ProcedureChart.Numeric
