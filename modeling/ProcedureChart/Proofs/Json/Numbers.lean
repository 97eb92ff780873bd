import ProcedureChart.Proofs.Json.Texts
import ProcedureChart.Proofs.Numeric.Magnitude

/-!
# Numbers in JSON texts

Two things about the numbers that are read off a text. They are finite (`number?_isFinite`): the
significand fits 64 bits, what scales to infinity is refused, and scaling down divides by numbers
that are not below 1. And a number is read off the front of a longer text as it is read off a text
of its own, if what follows cannot go on the number (`number?_append`).
-/

namespace ProcedureChart.Json

open Numeric (Below)

/-! ### Finite numbers -/

/-- A number stands for a finite double. -/
def Number.IsFinite (n : Number) : Prop := n.toFloat.isFinite

/-- Digits are gathered into a significand for as long as it fits 64 bits. The first digit that
would not fit ends this, so what was gathered always fits. -/
theorem gather_lt {significand : Nat} (h : significand < 2 ^ 64) (cs : List Char) :
    (gather significand cs).1 < 2 ^ 64 := by
  induction cs generalizing significand with
  | nil => exact h
  | cons c cs ih =>
    rw [gather]
    dsimp only
    split
    · next hnext => exact ih hnext
    · exact h

theorem isScale_of_isDivisor {u : Float.Model.UnpackedFloat} (h : Numeric.isDivisor u) :
    Numeric.isScale u := by
  cases u with
  | finite => rfl
  | infinity | notANumber | zero => cases h

/-- A significand that was scaled is finite. A product that overflows is refused, and a quotient by
a power of ten is no larger than the significand. -/
theorem scale?_isFinite {significand : Nat} {exponent : Int} {x : Float}
    (hs : significand < 2 ^ 64) (h : scale? significand exponent = some x) : x.isFinite := by
  have hbelow := Numeric.float_ofNat_below hs
  unfold scale? at h
  dsimp only at h
  split at h
  · cases h
    decide
  split at h
  · cases h
  split at h
  · -- a product is not NaN, and an infinite one is refused
    split at h
    · cases h
    · next hinf =>
      cases h
      have hpower := Numeric.isDivisor_ofScientific (n := exponent.toNat) (by omega)
      refine Numeric.isFinite_of_not ?_ (Bool.eq_false_iff.2 hinf)
      exact Numeric.unpack_pack_isNaN (Numeric.mul_isNaN _
        (Numeric.isNaN_of_isFinite (Numeric.isFinite_of_below hbelow))
        (isScale_of_isDivisor hpower))
  split at h
  · cases h
    have hpower := Numeric.isDivisor_ofScientific (n := (-exponent).toNat) (by omega)
    exact Numeric.isFinite_of_below (Numeric.float_div_below hbelow hpower (by decide) (by decide))
  split at h
  · cases h
    have hlargest := Numeric.isDivisor_ofScientific (Nat.le_refl 308)
    have hpower := Numeric.isDivisor_ofScientific (n := (-exponent - 308).toNat) (by omega)
    have hfirst := Numeric.float_div_below hbelow hlargest (by decide) (by decide)
    exact Numeric.isFinite_of_below (Numeric.float_div_below hfirst hpower (by decide) (by decide))
  · cases h
    decide

theorem ofNat_isFinite {n : Nat} (h : n < 2 ^ 64) : (Float.ofNat n).isFinite :=
  Numeric.isFinite_of_below (Numeric.float_ofNat_below h)

/-- Whatever its parts, a number that is made of them is finite: integers fit 64 bits, and
everything else was scaled. -/
theorem numberOf?_isFinite {negative : Bool} {whole : List Char} {fraction : Option (List Char)}
    {exponent : Option Int} {n : Number}
    (h : numberOf? negative whole fraction exponent = some n) : n.IsFinite := by
  have hwhole : (gather 0 whole).1 < 2 ^ 64 := gather_lt (by decide) whole
  unfold numberOf? at h
  dsimp only at h
  split at h
  · split at h
    · cases h
      exact ofNat_isFinite hwhole
    · split at h
      · cases h
        exact Numeric.neg_isFinite (ofNat_isFinite hwhole)
      · next hpos =>
        cases h
        obtain ⟨k, hk⟩ : ∃ k, (gather 0 whole).1 = k + 1 :=
          Nat.exists_eq_succ_of_ne_zero fun hzero => hpos (.inl hzero)
        rw [hk] at hwhole ⊢
        exact Numeric.neg_isFinite (ofNat_isFinite hwhole)
  · obtain ⟨x, hx, rfl⟩ := Option.map_eq_some_iff.1 h
    have hfinite := scale?_isFinite (gather_lt hwhole _) hx
    change Float.isFinite (if negative = true then -x else x) = true
    split
    · exact Numeric.neg_isFinite hfinite
    · exact hfinite

/-- **Numbers that are read are finite.** A text may well write down a number that is too large for
a double, and then the reader refuses it instead of taking it for infinity. -/
theorem number?_isFinite {cs : List Char} {n : Number} {rest : Rest cs}
    (h : number? cs = some (n, rest)) : n.IsFinite := by
  unfold number? at h
  dsimp only at h
  split at h
  · cases h
  split at h
  · cases h
  split at h
  · cases h
  split at h
  · cases h
  · obtain ⟨m, hm, heq⟩ := Option.map_eq_some_iff.1 h
    cases heq
    exact numberOf?_isFinite hm

/-! ### Numbers in front of other texts -/

/-- A text that cannot go on a number. -/
def EndsNumber (rest : List Char) : Prop :=
  ∀ c ∈ rest.head?, Numeric.isDigit c = false ∧ c ≠ '.' ∧ c ≠ 'e' ∧ c ≠ 'E'

/-- What ends a number ends its digits, so the digits of a longer text are those of the number
alone. -/
theorem takeWhile_append {rest : List Char} (hrest : EndsNumber rest) (cs : List Char) :
    (cs ++ rest).takeWhile Numeric.isDigit = cs.takeWhile Numeric.isDigit ∧
      (cs ++ rest).dropWhile Numeric.isDigit = cs.dropWhile Numeric.isDigit ++ rest := by
  induction cs with
  | nil =>
    cases rest with
    | nil => exact ⟨rfl, rfl⟩
    | cons c rest =>
      have hc : Numeric.isDigit c = false := (hrest c rfl).1
      rw [List.nil_append, List.takeWhile_cons, List.dropWhile_cons, hc]
      exact ⟨rfl, rfl⟩
  | cons c cs ih =>
    rw [List.cons_append, List.takeWhile_cons, List.dropWhile_cons, List.takeWhile_cons,
      List.dropWhile_cons]
    cases Numeric.isDigit c with
    | true => exact ⟨congrArg (c :: ·) ih.1, ih.2⟩
    | false => exact ⟨rfl, rfl⟩

variable {cs rest left : List Char}

/-- Digits are read off the front of a longer text as off a text of their own, as long as no digit
follows them. -/
theorem digits?_append {digits : List Char} (hrest : EndsNumber rest)
    (h : Gives (digits? cs) digits left) : Gives (digits? (cs ++ rest)) digits (left ++ rest) := by
  obtain ⟨hlt, h⟩ := h
  have hlt' : (left ++ rest).length < (cs ++ rest).length := by
    rw [List.length_append, List.length_append]
    omega
  refine ⟨hlt', ?_⟩
  cases cs with
  | nil => cases h
  | cons c cs =>
    obtain ⟨htake, hdrop⟩ := takeWhile_append hrest cs
    rw [digits?] at h
    simp only [List.cons_append, digits?, htake, hdrop]
    split at h
    · next hc =>
      cases h
      rw [if_pos hc]
    · cases h

/-- A sign is found in front of a text as it is found in front of a longer one. -/
theorem sign?_append (mark : Char) (rest : List Char) (hne : cs ≠ []) :
    (sign? mark (cs ++ rest)).1 = (sign? mark cs).1 ∧
      (sign? mark (cs ++ rest)).2.1 = (sign? mark cs).2.1 ++ rest := by
  cases cs with
  | nil => exact absurd rfl hne
  | cons c cs =>
    rw [List.cons_append, sign?, sign?]
    split
    · exact ⟨rfl, rfl⟩
    · exact ⟨rfl, rfl⟩

theorem head?_append {p : Char → Prop} (hcs : ∀ c ∈ cs.head?, p c) (hrest : ∀ c ∈ rest.head?, p c) :
    ∀ c ∈ (cs ++ rest).head?, p c := by
  cases cs with
  | nil => exact hrest
  | cons c cs => exact hcs

/-! #### Fractions -/

/-- Without a point there is no fraction, and nothing is read for it. -/
theorem fraction?_none (h : ∀ c ∈ cs.head?, c ≠ '.') : Gives (fraction? cs) none cs := by
  refine ⟨Nat.le_refl _, ?_⟩
  cases cs with
  | nil => rfl
  | cons c cs =>
    have hc : c ≠ '.' := h c rfl
    simp only [fraction?, sign?, if_neg hc]

/-- A fraction is a point and the digits behind it, of which there has to be one. -/
theorem fraction?_point {fraction : Option (List Char)} :
    Gives (fraction? ('.' :: cs)) fraction left ↔
      ∃ digits, fraction = some digits ∧ Gives (digits? cs) digits left := by
  have hsign : sign? '.' ('.' :: cs) = (true, ⟨cs, Nat.le_succ _⟩) := rfl
  simp only [Gives, fraction?, hsign]
  constructor
  · rintro ⟨hle, h⟩
    split at h
    · cases h
    · next digits r hlt heq =>
      cases h
      exact ⟨digits, rfl, hlt, heq⟩
  · rintro ⟨digits, rfl, hlt, h⟩
    exact ⟨Nat.le_succ_of_le (Nat.le_of_lt hlt), by simp only [h]⟩

/-- A fraction, or the absence of one, is read off the front of a longer text as off a text of its
own. What follows begins with no point, so none is taken for the number's. -/
theorem fraction?_append {fraction : Option (List Char)} (hrest : EndsNumber rest)
    (h : Gives (fraction? cs) fraction left) :
    Gives (fraction? (cs ++ rest)) fraction (left ++ rest) := by
  by_cases hpoint : cs.head? = some '.'
  · obtain ⟨cs, rfl⟩ := List.head?_eq_some_iff.1 hpoint
    obtain ⟨digits, hfraction, hdigits⟩ := fraction?_point.1 h
    exact fraction?_point.2 ⟨digits, hfraction, digits?_append hrest hdigits⟩
  · have hcs : ∀ c ∈ cs.head?, c ≠ '.' := fun c hc heq => hpoint (heq ▸ hc)
    obtain ⟨rfl, rfl⟩ := h.unique (fraction?_none hcs)
    exact fraction?_none (head?_append hcs fun c hc => (hrest c hc).2.1)

/-! #### Exponents -/

/-- The digits of an exponent, behind its sign. -/
def unsignedExponent (cs : List Char) : List Char :=
  (if (sign? '-' cs).1 then ⟨(sign? '-' cs).2.1, Nat.le_refl _⟩
    else (sign? '+' (sign? '-' cs).2.1).2 : Remainder (sign? '-' cs).2.1).1

/-- The sign of an exponent may be a minus or a plus. Only the first of two signs is taken, so a
second one is no digit. -/
theorem unsignedExponent_eq (cs : List Char) :
    unsignedExponent cs =
      if (sign? '-' cs).1 then (sign? '-' cs).2.1 else (sign? '+' (sign? '-' cs).2.1).2.1 := by
  unfold unsignedExponent
  split
  · rfl
  · rfl

theorem length_unsignedExponent_le (cs : List Char) :
    (unsignedExponent cs).length ≤ cs.length := by
  rw [unsignedExponent_eq]
  split
  · exact (sign? '-' cs).2.2
  · exact Nat.le_trans (sign? '+' (sign? '-' cs).2.1).2.2 (sign? '-' cs).2.2

/-- The value of an exponent. -/
def exponentValue (cs digits : List Char) : Int :=
  let n : Int := Numeric.digitsUpTo exponentLimit digits
  if (sign? '-' cs).1 then -n else n

/-- Without the letter for it there is no exponent, and nothing is read for it. -/
theorem exponent?_none (h : ∀ c ∈ cs.head?, ¬(c = 'e' ∨ c = 'E')) :
    Gives (exponent? cs) none cs := by
  refine ⟨Nat.le_refl _, ?_⟩
  cases cs with
  | nil => rfl
  | cons c cs => simp only [exponent?, if_neg (h c rfl)]

/-- An exponent is its letter, a sign or none, and digits, of which there has to be one. Without a
digit behind the letter there is no number at all. -/
theorem exponent?_letter {c : Char} (hc : c = 'e' ∨ c = 'E') {exponent : Option Int} :
    Gives (exponent? (c :: cs)) exponent left ↔
      ∃ digits, exponent = some (exponentValue cs digits) ∧
        Gives (digits? (unsignedExponent cs)) digits left := by
  simp only [Gives, exponent?, if_pos hc, exponentValue, unsignedExponent]
  constructor
  · rintro ⟨hle, h⟩
    split at h
    · cases h
    · next digits r hlt heq =>
      cases h
      exact ⟨digits, rfl, hlt, heq⟩
  · rintro ⟨digits, rfl, hlt, h⟩
    have hle : left.length ≤ cs.length :=
      Nat.le_trans (Nat.le_of_lt hlt) (length_unsignedExponent_le cs)
    exact ⟨Nat.le_succ_of_le hle, by simp only [h]⟩

/-- The sign of an exponent does not depend on what stands behind its digits. There has to be
something behind the sign, or the text that follows might begin with one. -/
theorem unsignedExponent_append (rest : List Char) (hne : unsignedExponent cs ≠ []) :
    (sign? '-' (cs ++ rest)).1 = (sign? '-' cs).1 ∧
      unsignedExponent (cs ++ rest) = unsignedExponent cs ++ rest := by
  have hcs : cs ≠ [] := by
    rintro rfl
    exact hne rfl
  obtain ⟨hminus, hafter⟩ := sign?_append '-' rest hcs
  refine ⟨hminus, ?_⟩
  rw [unsignedExponent_eq] at hne ⊢
  rw [unsignedExponent_eq cs, hminus, hafter]
  cases hsign : (sign? '-' cs).1 with
  | true => rfl
  | false =>
    have hnil : ∀ r, r = [] → (sign? '+' r).2.1 = [] := by
      rintro _ rfl
      rfl
    rw [hsign, if_neg Bool.false_ne_true] at hne
    exact (sign?_append '+' rest fun h => hne (hnil _ h)).2

/-- An exponent, or the absence of one, is read off the front of a longer text as off a text of its
own. -/
theorem exponent?_append {exponent : Option Int} (hrest : EndsNumber rest)
    (h : Gives (exponent? cs) exponent left) :
    Gives (exponent? (cs ++ rest)) exponent (left ++ rest) := by
  by_cases hletter : ∃ c ∈ cs.head?, c = 'e' ∨ c = 'E'
  · obtain ⟨c, hhead, hc⟩ := hletter
    obtain ⟨cs, rfl⟩ := List.head?_eq_some_iff.1 hhead
    obtain ⟨digits, hexponent, hdigits⟩ := (exponent?_letter hc).1 h
    have hne : unsignedExponent cs ≠ [] := by
      intro hnil
      rw [hnil] at hdigits
      obtain ⟨_, hdigits⟩ := hdigits
      cases hdigits
    obtain ⟨hsign, hunsigned⟩ := unsignedExponent_append rest hne
    rw [List.cons_append]
    refine (exponent?_letter hc).2 ⟨digits, ?_, ?_⟩
    · rw [hexponent, exponentValue, exponentValue, hsign]
    · rw [hunsigned]
      exact digits?_append hrest hdigits
  · have hcs : ∀ c ∈ cs.head?, ¬(c = 'e' ∨ c = 'E') := fun c hc h => hletter ⟨c, hc, h⟩
    obtain ⟨rfl, rfl⟩ := h.unique (exponent?_none hcs)
    refine exponent?_none (head?_append hcs fun c hc => ?_)
    exact not_or.2 (hrest c hc).2.2

/-! #### Numbers -/

/-- The parts that a number is read in: a sign, the whole digits, a fraction and an exponent.
Several digits do not begin with a zero. -/
theorem number?_iff {n : Number} :
    Gives (number? cs) n left ↔ ∃ whole r fraction r' exponent,
      Gives (digits? (sign? '-' cs).2.1) whole r ∧
        ¬(whole.head? = some '0' ∧ whole.length ≠ 1) ∧ Gives (fraction? r) fraction r' ∧
          Gives (exponent? r') exponent left ∧
            numberOf? (sign? '-' cs).1 whole fraction exponent = some n := by
  constructor
  · rintro ⟨hlt, h⟩
    unfold number? at h
    dsimp only at h
    split at h
    · cases h
    · next whole r hr hwhole =>
      split at h
      · cases h
      · next hzero =>
        split at h
        · cases h
        · next fraction r' hr' hfraction =>
          split at h
          · cases h
          · next exponent r'' hr'' hexponent =>
            obtain ⟨m, hm, heq⟩ := Option.map_eq_some_iff.1 h
            cases heq
            exact ⟨whole, r, fraction, r', exponent, ⟨hr, hwhole⟩, hzero, ⟨hr', hfraction⟩,
              ⟨hr'', hexponent⟩, hm⟩
  · rintro ⟨whole, r, fraction, r', exponent, ⟨hr, hwhole⟩, hzero, ⟨hr', hfraction⟩,
      ⟨hr'', hexponent⟩, hn⟩
    have hle := (sign? '-' cs).2.2
    refine ⟨by omega, ?_⟩
    unfold number?
    simp only [hwhole, if_neg hzero, hfraction, hexponent, hn, Option.map_some]

/-- **A number is read off the front** of a text as it is read off a text of its own. What follows
the number must not go on it: in front of a comma or a bracket a number is read as it is alone, in
front of a digit it is not. -/
theorem number?_append {n : Number} (hrest : EndsNumber rest) (h : Gives (number? cs) n left) :
    Gives (number? (cs ++ rest)) n (left ++ rest) := by
  obtain ⟨whole, r, fraction, r', exponent, hwhole, hzero, hfraction, hexponent, hn⟩ :=
    number?_iff.1 h
  have hne : cs ≠ [] := by
    rintro rfl
    obtain ⟨_, hwhole⟩ := hwhole
    cases hwhole
  obtain ⟨hsign, hunsigned⟩ := sign?_append '-' rest hne
  refine number?_iff.2 ⟨whole, r ++ rest, fraction, r' ++ rest, exponent, ?_, hzero,
    fraction?_append hrest hfraction, exponent?_append hrest hexponent, ?_⟩
  · rw [hunsigned]
    exact digits?_append hrest hwhole
  · rw [hsign]
    exact hn

end ProcedureChart.Json
