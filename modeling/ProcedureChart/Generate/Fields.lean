import ProcedureChart.Constraint.Filter
import ProcedureChart.Random.Source
import ProcedureChart.Route.Basic

/-!
# Drawing field values

The values that an independent field can take on a route. A route's constraints, the validation and
the generation constraints are turned into filters as far as their texts allow, and the preferred
values and the domain of a field are filtered in advance.
-/

namespace ProcedureChart

/-- The values from which a field is drawn for a route. -/
structure FieldPlan where
  name : String
  /-- preferred values that pass the filters -/
  preferred : List Value
  /-- values of the domain that pass the filters -/
  domain : List Value
  deriving DecidableEq

/-- The whole numbers from `low` to `high`. -/
def integersFrom (low high : Int) : List Value :=
  (List.range (high - low + 1).toNat).map fun (k : Nat) => .number (Float.ofInt (low + (k : Int)))

/-- All values of a field, if they can be listed: the options of a choice, or the integers of a
range of fewer than `cap + 1` numbers. -/
def InputField.domain (f : InputField) (cap : Nat) : List Value :=
  match f.kind with
  | .choice => f.options
  | .integer | .number =>
    match f.min, f.max with
    | some min, some max =>
      if !Numeric.isIntegral min || !Numeric.isIntegral max || max < min then []
      else
        let low := Numeric.toInt64 min
        let high := Numeric.toInt64 max
        if cap ≤ (high - low).toNat then [] else integersFrom low high
    | _, _ => []
  | .decimal | .mixedNumber | .text => []

namespace FieldPlan

/-- The plan of a field: its preferred values and its domain, as far as they pass the filters on the
field. -/
def ofField (f : InputField) (preferred : List Value) (filters : List FieldFilter) (cap : Nat) :
    FieldPlan :=
  let applicable := filters.filter fun filter => filter.field == f.name
  let passes (v : Value) : Bool := applicable.all fun filter => filter.accepts v
  { name := f.name
    preferred := preferred.filter passes
    domain := (f.domain cap).filter passes }

/-- Draws one of some values. -/
def pick {σ : Type} [RandomSource σ] (pool : List Value) : Draw σ (Option Value) :=
  if pool.isEmpty then return none
  else do
    let i ← Draw.index pool.length
    return pool[i]?

/-- Draws a value: with the given probability a preferred one, otherwise one of the domain. Where
one side is empty the other one serves, and no decision is drawn. -/
def draw {σ : Type} [RandomSource σ] (p : FieldPlan) (bias : Float) : Draw σ (Option Value) :=
  if p.preferred.isEmpty then pick p.domain
  else if p.domain.isEmpty then pick p.preferred
  else do
    if ← Draw.chance bias then pick p.preferred else pick p.domain

/-- Draws a value for each field into a scope; nothing if some field has no value to draw. -/
def drawAll {σ : Type} [RandomSource σ] (bias : Float) :
    List FieldPlan → Scope → Draw σ (Option Scope)
  | [], scope => return some scope
  | p :: rest, scope => do
    match ← p.draw bias with
    | none => return none
    | some v => drawAll bias rest (scope.insert p.name v)

theorem drawAll_cons {σ : Type} [RandomSource σ] (bias : Float) (p : FieldPlan)
    (rest : List FieldPlan) (scope : Scope) (s : σ) :
    drawAll bias (p :: rest) scope s =
      match p.draw bias s with
      | (none, s) => (none, s)
      | (some v, s) => drawAll bias rest (scope.insert p.name v) s := by
  rw [drawAll]
  simp only [bind, StateT.bind]
  rcases p.draw bias s with ⟨_ | v, s'⟩ <;> rfl

end FieldPlan

/-! ### Filters of a route -/

/-- The filters that the required outcome of an expression implies. A conjunction that has to hold
implies its parts; of what must not hold, only a single condition can be turned around. -/
def filtersFor (expr : String) (required : Bool) : List FieldFilter :=
  let parsed := Constraint.parse expr
  if !parsed.complete then []
  else if required then parsed.constraints.filterMap FieldFilter.ofConstraint?
  else
    match parsed.constraints with
    | [k] => (FieldFilter.ofConstraint? k.negate).toList
    | _ => []

/-- Whether a route constraint requires a truth value of its formula. -/
def RouteConstraint.isBoolean (k : RouteConstraint) : Bool :=
  !(k.optionValue.isSome && k.mode == .value)

/-- The filters that a route implies: those of its constraints, of the validation and of the
generation constraints. -/
def Definition.routeFilters (d : Definition) (r : Route) : List FieldFilter :=
  ((r.constraints.filter RouteConstraint.isBoolean).flatMap fun k =>
      filtersFor k.formula.source k.required)
    ++ (d.problemInput.validation.toList ++ d.constraints.values).flatMap fun f =>
      filtersFor f.source true

/-- The plans of the independent fields for a route, that of the target field first. -/
def Definition.planFields (d : Definition) (filters : List FieldFilter) (cap : Nat) :
    List FieldPlan :=
  let target := d.generation.bind GenerationHints.target
  let (first, others) := d.independentFields.partition fun f => some f.name == target
  (first ++ others).map fun f => .ofField f (d.preferred f.name) filters cap

/-- Each independent field has a plan, and there are no others. -/
theorem Definition.mem_planFields {d : Definition} {filters : List FieldFilter} {cap : Nat}
    {p : FieldPlan} : p ∈ d.planFields filters cap ↔
      ∃ f ∈ d.independentFields, .ofField f (d.preferred f.name) filters cap = p := by
  have hsplit (q : InputField → Bool) (f : InputField) :
      f ∈ d.independentFields.filter q ++ d.independentFields.filter (not ∘ q) ↔
        f ∈ d.independentFields := by
    cases hq : q f <;> simp [hq]
  simp only [planFields, List.partition_eq_filter_filter, List.mem_map, hsplit]

end ProcedureChart
