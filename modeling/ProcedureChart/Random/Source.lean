import ProcedureChart.Numeric.Integral

/-!
# Sources of randomness

A source of random draws is a type of states with a step that gives a number in `[0, 1)` and the
next state. Everything random in this library is written against this class and threads the state
through, so the same state always gives the same draws, and nothing is drawn that is not used.
-/

namespace ProcedureChart

/-- States from which uniform numbers in `[0, 1)` can be drawn. -/
class RandomSource (σ : Type) where
  /-- a draw and the state behind it -/
  uniform : σ → Float × σ

/-- A computation that draws from a source. -/
abbrev Draw (σ α : Type) : Type := StateM σ α

namespace Draw

variable {σ : Type} [RandomSource σ]

/-- A uniform number in `[0, 1)`. -/
def uniform : Draw σ Float := fun s => RandomSource.uniform s

/-- A uniform place among `length` items, of which there has to be one. -/
def index (length : Nat) : Draw σ Nat := do
  let x ← uniform
  return min (Numeric.toCount (x * Float.ofNat length)) (length - 1)

/-- Whether an event of the given probability happens. -/
def chance (probability : Float) : Draw σ Bool := do
  let x ← uniform
  return x < probability

theorem index_lt {length : Nat} (h : 0 < length) (s : σ) : (index length s).1 < length := by
  have : (index length s).1 ≤ length - 1 := Nat.min_le_right ..
  omega

end Draw

end ProcedureChart
