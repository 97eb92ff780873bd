import ProcedureChart.Value

/-!
# Comparing floats

The three comparisons of floats read one partial order: `order?` is the order of two floats, and
nothing if one of them is NaN. Equality, `<` and `≤` each ask for some of its answers, so that what
they have to do with each other follows from two facts: the order turned round is the order of the
floats exchanged (`order?_swap`), and only NaN has no order (`order?_isSome`).
-/

namespace ProcedureChart

namespace Numeric

open Float.Model (UnpackedFloat)

/-! ### Unpacked floats -/

/-- Comparing the other way round swaps the outcome, if there is one. -/
theorem compare_swap (x y : UnpackedFloat) : y.compare x = (x.compare y).map Ordering.swap := by
  cases x with
  | notANumber => cases y <;> rfl
  | infinity s =>
    cases y with
    | infinity t => cases s <;> cases t <;> rfl
    | notANumber | zero | finite => cases s <;> rfl
  | zero s =>
    cases y with
    | infinity t | finite t => cases t <;> rfl
    | notANumber | zero => rfl
  | finite s m e h =>
    cases y with
    | notANumber => cases s <;> rfl
    | infinity t => cases s <;> cases t <;> rfl
    | zero t => cases s <;> rfl
    | finite t m' e' h' =>
      -- of one sign, the exponents are compared first and the mantissas second
      have hswap : (compare e' e).then (compare m' m) =
          ((compare e e').then (compare m m')).swap := by
        rw [Ordering.swap_then, ← Std.OrientedOrd.eq_swap (a := e') (b := e),
          ← Std.OrientedOrd.eq_swap (a := m') (b := m)]
      cases s <;> cases t
      · exact congrArg some (congrArg Ordering.swap hswap)
      · rfl
      · rfl
      · exact congrArg some hswap

/-- Two numbers are always ordered. Only NaN is left out. -/
theorem compare_isSome {x y : UnpackedFloat} (hx : x.isNaN = false) (hy : y.isNaN = false) :
    (x.compare y).isSome := by
  cases x with
  | notANumber => cases hx
  | infinity s =>
    cases y with
    | notANumber => cases hy
    | infinity t => cases s <;> cases t <;> rfl
    | zero | finite => cases s <;> rfl
  | zero s =>
    cases y with
    | notANumber => cases hy
    | infinity t | finite t => cases t <;> rfl
    | zero => rfl
  | finite s m e h =>
    cases y with
    | notANumber => cases hy
    | infinity t | finite t => cases s <;> cases t <;> rfl
    | zero => cases s <;> rfl

/-! ### Floats -/

/-- The order of two floats, if they have one. -/
def order? (x y : Float) : Option Ordering := x.toModel.unpack.compare y.toModel.unpack

theorem order?_swap (x y : Float) : order? y x = (order? x y).map Ordering.swap := compare_swap ..

/-- Only NaN stands in no order. -/
theorem order?_isSome {x y : Float} (hx : x.isNaN = false) (hy : y.isNaN = false) :
    (order? x y).isSome :=
  compare_isSome hx hy

theorem beq_eq_order? (x y : Float) : (x == y) = (order? x y == some .eq) := rfl

theorem lt_iff_order? (x y : Float) : x < y ↔ order? x y = some .lt := by
  change decide ((order? x y == some .lt) = true) = true ↔ _
  rw [decide_eq_true_iff, beq_iff_eq]

theorem le_iff_order? (x y : Float) : x ≤ y ↔ (order? x y).any Ordering.isLE = true := by
  change decide ((order? x y).any (·.isLE) = true) = true ↔ _
  rw [decide_eq_true_iff]

/-- Equality of floats reads the same from both sides. -/
theorem beq_comm (x y : Float) : (x == y) = (y == x) := by
  rw [beq_eq_order?, beq_eq_order?, order?_swap]
  cases order? y x with
  | none => rfl
  | some o => cases o <;> rfl

/-- Of two floats other than NaN, one is below the other or not above it. -/
theorem not_lt {x y : Float} (hx : x.isNaN = false) (hy : y.isNaN = false) :
    ¬x < y ↔ y ≤ x := by
  rw [lt_iff_order?, le_iff_order?, order?_swap x y]
  obtain ⟨o, ho⟩ := Option.isSome_iff_exists.1 (order?_isSome hx hy)
  rw [ho]
  cases o <;> decide

/-- Nothing is below a float and not below it. -/
theorem not_le_of_lt {x y : Float} (h : x < y) : ¬y ≤ x := by
  rw [lt_iff_order?] at h
  rw [le_iff_order?, order?_swap x y, h]
  decide

end Numeric

/-! ### Values and scopes -/

/-- Equality of values is symmetric. It is not reflexive, because of NaN. -/
theorem Value.equals_comm (v w : Value) : v.equals w = w.equals v := by
  cases v with
  | null => cases w <;> rfl
  | bool a =>
    cases w with
    | bool b => exact BEq.comm
    | null | number | text | mixed => rfl
  | number x =>
    cases w with
    | number y => exact Numeric.beq_comm x y
    | null | bool | text | mixed => rfl
  | text s =>
    cases w with
    | text t => exact BEq.comm
    | null | bool | number | mixed => rfl
  | mixed whole num denom =>
    cases w with
    | mixed whole' num' denom' =>
      rw [equals, equals, Numeric.beq_comm whole, Numeric.beq_comm num, Numeric.beq_comm denom]
    | null | bool | number | text => rfl

theorem Scope.entriesEqual_comm (s t : List (String × Value)) :
    entriesEqual s t = entriesEqual t s := by
  induction s generalizing t with
  | nil => cases t <;> rfl
  | cons a s ih =>
    cases t with
    | nil => rfl
    | cons b t =>
      rw [entriesEqual, entriesEqual, ih t, Value.equals_comm a.2 b.2, BEq.comm (a := a.1)]

/-- Whether two scopes hold equal values reads the same from both sides. -/
theorem Scope.equals_comm (s t : Scope) : s.equals t = t.equals s := entriesEqual_comm ..

end ProcedureChart
