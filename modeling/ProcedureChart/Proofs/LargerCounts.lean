import ProcedureChart.Proofs.Distinct
import ProcedureChart.Proofs.Misses
import ProcedureChart.Proofs.Splitting

/-!
# Asking for more examples

The pool of a run does not depend on how many examples are asked for, and a selection of fewer is
the beginning of one of more (`selectDiverse_prefix`). Two runs have the same pool, but each has
tables of its own. If the examples of the pool agree in their signs this makes no difference, and
whoever asks for more gets what was given before and something behind it (`examples_prefix`).
Otherwise the keys decide whether `0` and `-0` are two examples or one, and the same question may be
answered differently by the next run (`not_examples_prefix`).
-/

namespace ProcedureChart

variable {σ : Type} [RandomSource σ]

/-- Two selections from one pool, either of which may be the longer one. The tables are the same, or
they have nothing to decide. -/
theorem selectDiverse_prefix_of_agree {pool : List Example} {tables tables' : Tables}
    (h : tables = tables' ∨ SignsAgree pool) {count more : Nat} (hcount : count ≤ more) (s : σ) :
    (selectDiverse pool count s tables).1 <+: (selectDiverse pool more s tables').1 := by
  have hsame : selectDiverse pool more s tables = selectDiverse pool more s tables' := by
    rcases h with rfl | hsigns
    · rfl
    · exact selectDiverse_congr (tables.exactOn_of_signsAgree hsigns)
        (tables'.exactOn_of_signsAgree hsigns) more s
  rw [← hsame]
  exact selectDiverse_prefix pool hcount s tables

/-- A selection has as many examples as were asked for, or all that the tables of its groups tell
apart. -/
theorem length_selectDiverse (pool : List Example) (count : Nat) (s : σ) (tables : Tables) :
    (selectDiverse pool count s tables).1.length =
      min count ((pool.map Example.descriptor).eraseDups.map fun d =>
        (Group.distinct (tables d) [] (pool.filter (·.descriptor == d))).length).sum := by
  have hstock := (Group.perm_groups tables pool).flatMap_right Group.pool
  rw [List.flatMap_map] at hstock
  rw [selectDiverse_eq_take, List.length_take,
    (perm_selectionOrder_stock tables pool s).length_eq, Group.stock, hstock.length_eq,
    List.length_flatMap]
  congr 3
  funext d
  exact (Group.perm_byMagnitude _).length_eq

/-! ### Runs -/

namespace Plan

/-- A whole run selects from the pool of all places. -/
theorem generate_eq_selectDiverse (p : Plan) (count : Nat) (s : σ) (tables : Tables) :
    (p.generate count s tables).1.1 =
      let raw := p.examplesAt (List.range p.targets.length) s
      (selectDiverse raw.1 count raw.2 tables).1 := by
  cases hready : p.isReady with
  | true => rw [generate, examplesAt, if_pos hready, if_pos hready]
  | false =>
    simp only [examplesAt_of_not_isReady hready, selectDiverse_nil, generate, hready]
    rfl

end Plan

/-- **Asking for more examples** does not change the ones already given, in whole runs and in split
ones: what a run gives is the beginning of what any run gives that is asked for more, if both look
value sets up in the same way or the examples in their pool agree in the signs of zeros. -/
theorem examples_prefix (c : Chart) (config : Config) (constraints : UserConstraints)
    (tables tables' : Tables) {count more : Nat} (h : count ≤ more) :
    let p := Plan.make c config constraints
    (∀ {σ : Type} [RandomSource σ] (s : σ),
      tables = tables' ∨ SignsAgree (p.examplesAt (List.range p.targets.length) s).1 →
      (p.generate count s tables).1.1 <+: (p.generate more s tables').1.1) ∧
    ∀ workers seed,
      tables = tables' ∨ SignsAgree (p.handPool (p.workerSlices (max workers 1)) seed) →
      p.generateSplit count workers seed tables <+: p.generateSplit more workers seed tables' := by
  intro p
  constructor
  · intro σ _ s hagree
    rw [p.generate_eq_selectDiverse, p.generate_eq_selectDiverse]
    exact selectDiverse_prefix_of_agree hagree h _
  · intro workers seed hagree
    rw [p.generateSplit_eq_selectDiverse, p.generateSplit_eq_selectDiverse]
    exact selectDiverse_prefix_of_agree hagree h _

/-- A chart with a number to draw and a single route. -/
def countingChart (preferred : List Value) : Chart where
  definition := {
    id := "counting"
    title := "Counting"
    problemInput := { schema := "counting", fields := [{ name := "n" }] }
    entryNode := "end"
    nodes := .ofList [("end", .terminal {})]
    generation := some { preferred := .ofList [("n", preferred)] } }
  diagram := {}
  entry_defined := rfl

/-- Eight attempts, and no enrichment when one of them hits. -/
def eightAttempts : Config :=
  { attemptsPerPath := 8, targetHitsPerPath := 8, enrichmentTarget := 1 }

/-- A plan for the numbers of a counting chart. -/
def countingPlan (preferred : List Value) : Plan :=
  Plan.make (countingChart preferred) eightAttempts {}

/-- The numbers `1`, `2` and `3` agree in their signs, and whatever the tables are, the first two of
them are the ones given when two are asked for. -/
theorem examples_prefix_counting :
    let p := countingPlan [.number 1, .number 2, .number 3]
    2 ≤ 3 ∧ SignsAgree (p.examplesAt (List.range p.targets.length) (Mulberry32.ofSeed 42)).1 ∧
      (p.generate 2 (Mulberry32.ofSeed 42) Tables.byBits).1.1 <+:
        (p.generate 3 (Mulberry32.ofSeed 42) Tables.byValues).1.1 ∧
      p.generateSplit 2 4 42 Tables.byBits <+: p.generateSplit 3 4 42 Tables.byBits := by
  intro p
  have hcount : 2 ≤ 3 := by decide
  have hsigns :
      SignsAgree (p.examplesAt (List.range p.targets.length) (Mulberry32.ofSeed 42)).1 := by
    have hready : p.isReady = true := by decide +kernel
    rw [Plan.examplesAt, if_pos hready, Plan.generateRaw_of_filled rfl (by decide +kernel)]
    decide +kernel
  obtain ⟨hwhole, -⟩ := examples_prefix (countingChart [.number 1, .number 2, .number 3])
    eightAttempts {} Tables.byBits Tables.byValues hcount
  obtain ⟨-, hsplit⟩ := examples_prefix (countingChart [.number 1, .number 2, .number 3])
    eightAttempts {} Tables.byBits Tables.byBits hcount
  exact ⟨hcount, hsigns, hwhole _ (.inr hsigns), hsplit 4 42 (.inl rfl)⟩

/-- **The same question, two answers.** Eight attempts draw all of `0`, `-0`, `1`, `2` and `3`. A
run with tables that go by bits gives five examples, and one with tables that go by values, under
the same seed and asked for as many, gives four. -/
theorem not_examples_prefix :
    let p := countingPlan [.number 0, .number (-0), .number 1, .number 2, .number 3]
    (p.generate 5 (Mulberry32.ofSeed 42) Tables.byBits).1.1.length = 5 ∧
      (p.generate 5 (Mulberry32.ofSeed 42) Tables.byValues).1.1.length = 4 ∧
      ¬ (p.generate 5 (Mulberry32.ofSeed 42) Tables.byBits).1.1 <+:
        (p.generate 5 (Mulberry32.ofSeed 42) Tables.byValues).1.1 := by
  intro p
  have hready : p.isReady = true := by decide +kernel
  obtain ⟨pool, hpool, hbits, hvalues⟩ : ∃ pool,
      (p.examplesAt (List.range p.targets.length) (Mulberry32.ofSeed 42)).1 = pool ∧
      ((pool.map Example.descriptor).eraseDups.map fun d =>
        (Group.distinct (Tables.byBits d) [] (pool.filter (·.descriptor == d))).length).sum = 5 ∧
      ((pool.map Example.descriptor).eraseDups.map fun d =>
        (Group.distinct (Tables.byValues d) [] (pool.filter (·.descriptor == d))).length).sum =
          4 := by
    refine ⟨_, rfl, ?_⟩
    rw [Plan.examplesAt, if_pos hready, Plan.generateRaw_of_filled rfl (by decide +kernel)]
    decide +kernel
  have hfive : (p.generate 5 (Mulberry32.ofSeed 42) Tables.byBits).1.1.length = 5 := by
    rw [p.generate_eq_selectDiverse, length_selectDiverse, hpool, hbits, Nat.min_self]
  have hfour : (p.generate 5 (Mulberry32.ofSeed 42) Tables.byValues).1.1.length = 4 := by
    rw [p.generate_eq_selectDiverse, length_selectDiverse, hpool, hvalues]
    rfl
  refine ⟨hfive, hfour, fun hprefix => ?_⟩
  have hle := hprefix.length_le
  rw [hfive, hfour] at hle
  omega

end ProcedureChart
