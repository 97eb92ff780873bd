import ProcedureChart.Generate.Example
import ProcedureChart.Random.Source

/-!
# Selection

Choosing diverse examples from a pool. The pool is grouped by descriptor, equal problems of a group
counting once, and the groups are put in order of their simplest example. First each group gives one
example from the smaller half of its magnitudes; then the groups in turn give their next larger
ones, until there are enough or none are left.

Which problems of a group count as equal is not settled by the problems alone: a group looks them up
in a table of its own (`Lookup`), whose key is drawn when it is made.
-/

namespace ProcedureChart

/-! ### Tables of value sets -/

/-- How a table of value sets is looked up in. It hashes the bits of their numbers under its key and
compares values only where hashes meet. So what was put into it is found again bit by bit, and what
is found is equal to something in it; but `0` and `-0` are equal and have different bits, and it
depends on the key whether a value set is found that differs from others in the sign of a zero. -/
structure Lookup where
  /-- whether a table into which some value sets were put finds another one -/
  finds : (seen : List Scope) → Scope → Bool
  equals_of_finds {seen : List Scope} {v : Scope} : finds seen v → ∃ w ∈ seen, w.equals v
  finds_of_mem {seen : List Scope} {v : Scope} : v ∈ seen → v.equals v → finds seen v

namespace Lookup

/-- A table in which different hashes never meet: signs of zeros tell value sets apart. -/
def byBits : Lookup where
  finds seen v := seen.contains v && v.equals v
  equals_of_finds h := by
    obtain ⟨hmem, hself⟩ := Bool.and_eq_true_iff.1 h
    exact ⟨_, List.contains_iff_mem.1 hmem, hself⟩
  finds_of_mem hmem hself := Bool.and_eq_true_iff.2 ⟨List.contains_iff_mem.2 hmem, hself⟩

/-- A table in which all hashes meet: equal value sets are one, whatever the signs of zeros. -/
def byValues : Lookup where
  finds seen v := seen.any fun w => w.equals v
  equals_of_finds h := List.any_eq_true.1 h
  finds_of_mem hmem hself := List.any_eq_true.2 ⟨_, hmem, hself⟩

end Lookup

/-- The tables of a selection, one for the group of each descriptor. -/
abbrev Tables := String → Lookup

namespace Tables

/-- Tables that go by bits. With keys drawn at random nearly all tables do. -/
def byBits : Tables := fun _ => Lookup.byBits

/-- Tables that go by values. -/
def byValues : Tables := fun _ => Lookup.byValues

end Tables

/-! ### Groups -/

/-- The problems of one descriptor that are left, smallest magnitude first. -/
structure Group where
  descriptor : String
  pool : List Example
  deriving DecidableEq

namespace Group

/-- The problems that are not found among those in front of them; the first of equal ones stays.
Problems that differ in the sign of a zero may or may not be found equal. -/
def distinct (lookup : Lookup) : (seen : List Scope) → List Example → List Example
  | _, [] => []
  | seen, e :: rest =>
    if lookup.finds seen e.values then distinct lookup seen rest
    else e :: distinct lookup (e.values :: seen) rest

/-- The problems in the order of their magnitudes, problems of one magnitude in their own order. -/
def byMagnitude (pool : List Example) : List Example :=
  ((pool.map fun e => (Numeric.totalOrderKey e.magnitude, e)).mergeSort
    fun a b => a.1 ≤ b.1).map (·.2)

/-- The group of a descriptor in a pool. -/
def ofPool (tables : Tables) (descriptor : String) (pool : List Example) : Group where
  descriptor
  pool := byMagnitude
    (distinct (tables descriptor) [] (pool.filter fun e => e.descriptor == descriptor))

/-- The simplest complexity in a group. -/
def simplest (g : Group) : Complexity :=
  match g.pool with
  | [] => ⟨0, 0⟩
  | e :: rest =>
    rest.foldl (fun best e => if best.le e.complexity then best else e.complexity) e.complexity

/-- The groups of a pool, simplest first, those of one complexity in order of appearance. -/
def groups (tables : Tables) (pool : List Example) : List Group :=
  (((pool.map Example.descriptor).eraseDups.map fun d => ofPool tables d pool).map fun g =>
    (g.simplest, g)).mergeSort (fun a b => a.1.le b.1) |>.map (·.2)

/-- Takes the problem at a place. -/
def takeAt? (g : Group) (i : Nat) : Option (Example × Group) :=
  g.pool[i]?.map fun e => (e, { g with pool := g.pool.eraseIdx i })

/-- Takes the smallest problem of the larger half. -/
def takeLarger? (g : Group) : Option (Example × Group) := g.takeAt? (g.pool.length / 2)

variable {σ : Type} [RandomSource σ]

/-- Takes a problem from the smaller half. -/
def takeReadable? (g : Group) (s : σ) : Option (Example × Group) × σ :=
  if g.pool.isEmpty then (none, s)
  else
    let (i, s) := Draw.index ((g.pool.length + 1) / 2) s
    (g.takeAt? i, s)

/-- One problem from each of the first `room` groups, and what is left of all groups. -/
def firstRound : (room : Nat) → List Group → σ → (List Example × List Group) × σ
  | 0, groups, s => (([], groups), s)
  | _ + 1, [], s => (([], []), s)
  | room + 1, g :: rest, s =>
    let (taken, s) := g.takeReadable? s
    let ((picked, left), s) := firstRound room rest s
    match taken with
    | some (e, g) => ((e :: picked, g :: left), s)
    | none => ((picked, g :: left), s)

/-- Up to `room` larger problems, one from each group, and what is left of all groups. -/
def paddingRound : (room : Nat) → List Group → List Example × List Group
  | 0, groups => ([], groups)
  | _ + 1, [] => ([], [])
  | room + 1, g :: rest =>
    match g.takeLarger? with
    | some (e, g) =>
      let (picked, left) := paddingRound room rest
      (e :: picked, g :: left)
    | none =>
      let (picked, left) := paddingRound (room + 1) rest
      (picked, g :: left)

/-- Up to `room` larger problems, round by round until a round gives none. -/
def padding (room : Nat) (groups : List Group) : List Example :=
  match room with
  | 0 => []
  | room + 1 =>
    let (picked, left) := paddingRound (room + 1) groups
    if picked.isEmpty then [] else picked ++ padding (room + 1 - picked.length) left
termination_by room
decreasing_by
  rename_i h
  have := List.length_pos_iff.2 (fun heq => h (List.isEmpty_iff.2 heq))
  omega

end Group

/-- Selects up to `count` examples from a pool. -/
def selectDiverse {σ : Type} [RandomSource σ] (pool : List Example) (count : Nat) (s : σ)
    (tables : Tables := Tables.byBits) : List Example × σ :=
  let ((picked, left), s) := Group.firstRound count (Group.groups tables pool) s
  (picked ++ Group.padding (count - picked.length) left, s)

end ProcedureChart
