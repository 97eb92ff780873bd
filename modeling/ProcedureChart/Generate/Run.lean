import ProcedureChart.Generate.Raw
import ProcedureChart.Generate.Select
import ProcedureChart.Random.Mulberry

/-!
# Generation runs

Whole runs: raw generation over all routes of a plan, then selection. A run may also be split among
workers, each with a seed of its own and a slice of the routes; their pools are put together in
order, and the selection has a seed of its own as well. The tables of a selection are made anew for
each run and belong to no seed.
-/

namespace ProcedureChart

namespace Plan

variable {σ : Type} [RandomSource σ]

/-- Generates up to `count` diverse examples, with the account of the run. A plan that is not ready
gives none and draws nothing. -/
def generate (p : Plan) (count : Nat) (s : σ) (tables : Tables := Tables.byBits) :
    (List Example × RunReport) × σ :=
  if p.isReady then
    let ((pool, paths), s) := p.generateRaw (List.range p.targets.length) s
    let (selected, s) := selectDiverse pool count s tables
    ((selected, { p.emptyReport with paths, selected := selected.length }), s)
  else (([], p.emptyReport), s)

/-- The pool of examples for the routes at some places; a plan that is not ready gives none. -/
def examplesAt (p : Plan) (indices : List Nat) (s : σ) : List Example × σ :=
  if p.isReady then
    let ((pool, _), s) := p.generateRaw indices s
    (pool, s)
  else ([], s)

/-- An example on target for the last route of a signature. -/
def exampleOfSignature (p : Plan) (signature : String) (s : σ) : Option Example × σ :=
  match p.targetOf? signature with
  | none => (none, s)
  | some t => p.exampleFor t s

end Plan

/-- A list in slices of `size` items, the last of which may be shorter. -/
def slices {α : Type} (size : Nat) (l : List α) : List (List α) :=
  if _h : size = 0 ∨ l = [] then [] else l.take size :: slices size (l.drop size)
termination_by l.length
decreasing_by
  obtain ⟨hsize, hl⟩ := not_or.1 _h
  have := List.length_pos_iff.2 hl
  rw [List.length_drop]
  omega

namespace Plan

/-- How many routes each of some workers gets. -/
def sliceSize (p : Plan) (workers : Nat) : Nat :=
  max ((p.targets.length + (workers - 1)) / workers) 1

/-- The slices of routes for some workers. -/
def workerSlices (p : Plan) (workers : Nat) : List (List Nat) :=
  slices (p.sliceSize workers) (List.range p.targets.length)

/-- Generates up to `count` diverse examples with the routes split among workers. The seeds of the
workers follow each other from `seed` on, and that of the selection follows them. -/
def generateSplit (p : Plan) (count workers seed : Nat) (tables : Tables := Tables.byBits) :
    List Example :=
  if p.isReady then
    let workers := max workers 1
    let pools := (p.workerSlices workers).mapIdx fun worker indices =>
      (p.generateRaw indices (Mulberry32.ofSeed (seed + worker))).1.1
    (selectDiverse pools.flatten count (Mulberry32.ofSeed (seed + workers)) tables).1
  else []

end Plan

end ProcedureChart
