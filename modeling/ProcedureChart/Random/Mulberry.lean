import ProcedureChart.Random.Source

/-!
# Mulberry32

A source with 32 bits of state. The state advances by a fixed odd step; a draw is the new state with
its bits mixed. A seed is the state before the first draw.
-/

namespace ProcedureChart

/-- A state of the generator. -/
structure Mulberry32 where
  state : UInt32
  deriving Repr, DecidableEq

namespace Mulberry32

/-- The distance between successive states. -/
def increment : UInt32 := 0x6D2B79F5

/-- The word that a state is mixed into. -/
def mix (state : UInt32) : UInt32 :=
  let t := (state ^^^ (state >>> 15)) * (state ||| 1)
  let t := t ^^^ (t + (t ^^^ (t >>> 7)) * (t ||| 61))
  t ^^^ (t >>> 14)

/-- The generator with a seed; seeds count modulo `2 ^ 32`. -/
def ofSeed (seed : Nat) : Mulberry32 := ⟨UInt32.ofNat seed⟩

/-- The next word, and the state behind it. -/
def next (g : Mulberry32) : UInt32 × Mulberry32 :=
  let state := g.state + increment
  (mix state, ⟨state⟩)

instance : RandomSource Mulberry32 where
  uniform g :=
    let (word, g) := g.next
    (Float.ofNat word.toNat / 4294967296.0, g)

end Mulberry32

end ProcedureChart
