import ProcedureChart.Proofs.Constraint.Reading
import ProcedureChart.Proofs.Expr.Refinement
import ProcedureChart.Proofs.FixedPoint
import ProcedureChart.Proofs.Judging
import ProcedureChart.Proofs.Numeric.Remainder

/-!
# Filters lose no example

What a filter of a route discards, an attempt for the route would reject (`accepts_of_onTarget`).
A filter is a condition read off the text of a formula that has to come out one way or the other on
the route. It follows from the formula as long as the text is orderly (`Formula.Orderly`):
conditions are read without the tokens of their text, and where the two disagree a filter may
discard a good value (`not_accepts_of_conditional`). A filter must also be decisive
(`FilterTest.Decisive`): turning an order around, as for a formula that must not hold, takes two
numbers.
-/

namespace ProcedureChart

/-! ### Turning filters around -/

namespace FilterTest

/-- The opposite test. -/
def negate : FilterTest → FilterTest
  | compare op literal => compare op.negate literal
  | divisible divisor expected => divisible divisor !expected

/-- Whether a test says yes or no of every number: an order needs a literal that is a number, and a
divisor must be one. -/
def Decisive : FilterTest → Prop
  | compare op literal => op = .equal ∨ op = .notEqual ∨ literal.toNumber.isNaN = false
  | divisible divisor _ => divisor.isNaN = false

instance (test : FilterTest) : Decidable test.Decisive :=
  match test with
  | compare op literal =>
    inferInstanceAs (Decidable (op = .equal ∨ op = .notEqual ∨ literal.toNumber.isNaN = false))
  | divisible divisor _ => inferInstanceAs (Decidable (divisor.isNaN = false))

/-- Of two numbers, one is below the other where it is not above or equal to it. -/
theorem decide_lt {x y : Float} (hx : x.isNaN = false) (hy : y.isNaN = false) :
    decide (x < y) = !decide (y ≤ x) := by
  rw [← decide_not, decide_eq_decide, ← Numeric.not_lt hx hy, Decidable.not_not]

theorem decide_le {x y : Float} (hx : x.isNaN = false) (hy : y.isNaN = false) :
    decide (x ≤ y) = !decide (y < x) := by
  rw [← decide_not, decide_eq_decide, Numeric.not_lt hy hx]

end FilterTest

/-- Of values that can be compared, the opposite operator says the opposite. Equality is decided of
all values, the orders only of numbers other than NaN. -/
theorem CompareOp.holds_negate {op : CompareOp} {v literal : Value}
    (h : op = .equal ∨ op = .notEqual ∨
      v.toNumber.isNaN = false ∧ literal.toNumber.isNaN = false) :
    op.negate.holds v literal = !op.holds v literal := by
  have horder (hne : op ≠ .equal ∧ op ≠ .notEqual) :
      v.toNumber.isNaN = false ∧ literal.toNumber.isNaN = false :=
    (h.resolve_left hne.1).resolve_left hne.2
  cases op with
  | equal => rfl
  | notEqual => exact (Bool.not_not _).symm
  | greaterEqual =>
    obtain ⟨hv, hliteral⟩ := horder (by decide)
    exact FilterTest.decide_lt hv hliteral
  | lessEqual =>
    obtain ⟨hv, hliteral⟩ := horder (by decide)
    exact FilterTest.decide_lt hliteral hv
  | greater =>
    obtain ⟨hv, hliteral⟩ := horder (by decide)
    exact FilterTest.decide_le hv hliteral
  | less =>
    obtain ⟨hv, hliteral⟩ := horder (by decide)
    exact FilterTest.decide_le hliteral hv

namespace FilterTest

theorem decisive_negate {test : FilterTest} : test.negate.Decisive ↔ test.Decisive := by
  cases test with
  | divisible => exact Iff.rfl
  | compare op literal => cases op <;> simp [negate, Decisive, CompareOp.negate]

/-- Of a number, the opposite test says the opposite. -/
theorem holds_negate {test : FilterTest} (h : test.Decisive) {x : Float} (hx : x.isNaN = false) :
    test.negate.holds (.number x) = !test.holds (.number x) := by
  cases test with
  | divisible divisor expected =>
    have hexpected (b : Bool) : (b == !expected) = !(b == expected) := by
      cases b <;> cases expected <;> rfl
    exact hexpected _
  | compare op literal =>
    exact CompareOp.holds_negate (h.imp_right fun h => h.imp_right fun h => ⟨hx, h⟩)

end FilterTest

namespace FieldFilter

/-- The opposite filter. -/
def negate (φ : FieldFilter) : FieldFilter := { φ with test := φ.test.negate }

/-- A negated constraint becomes a filter where the constraint does, and it is the opposite
filter. -/
theorem ofConstraint?_negate (k : Constraint) :
    ofConstraint? k.negate = (ofConstraint? k).map negate := by
  cases k with
  | truth => rfl
  | comparison left op right literal =>
    cases literal with
    | none => rfl
    | some literal =>
      simp only [Constraint.negate, ofConstraint?]
      split <;> rfl
  | divisibility left divisible divisor =>
    simp only [Constraint.negate, ofConstraint?]
    split
    · split
      · split <;> rfl
      · rfl
    · rfl

/-- No filter divides by 0: such a constraint becomes none. -/
theorem divisor_ne_zero {k : Constraint} {φ : FieldFilter} {divisor : Float} {expected : Bool}
    (h : ofConstraint? k = some φ) (htest : φ.test = .divisible divisor expected) :
    (divisor == 0.0) = false := by
  cases k with
  | truth => cases h
  | comparison =>
    simp only [ofConstraint?] at h
    split at h
    · split at h <;> cases h
      cases htest
    · cases h
  | divisibility =>
    simp only [ofConstraint?] at h
    split at h
    · split at h
      · split at h
        · cases h
        · next hzero =>
          cases h
          cases htest
          exact Bool.eq_false_iff.2 hzero
      · cases h
    · cases h

/-- A filter accepts the finite numbers of which its test holds. -/
theorem accepts_of_holds {k : Constraint} {φ : FieldFilter} {x : Float}
    (hφ : ofConstraint? k = some φ) (hdecisive : φ.test.Decisive) (hx : x.isFinite)
    (h : φ.test.holds (.number x)) : φ.accepts (.number x) := by
  obtain ⟨field, test⟩ := φ
  cases test with
  | compare op literal => exact h
  | divisible divisor expected =>
    have hremainder := Numeric.remainder_isNaN hx hdecisive (divisor_ne_zero hφ rfl)
    rw [accepts]
    dsimp only [Value.toNumber]
    rw [hremainder]
    exact h

end FieldFilter

/-! ### What a formula says -/

/-- A formula whose text can be cut without its tokens: it is written plainly, and nowhere does a
conditional stand beside a conjunction. -/
def Formula.Orderly (f : Formula) : Prop :=
  ∃ ts, Expr.words false f.source.toList = some ts ∧ Expr.Unmixed ts

/-- A formula that is written plainly and without conditionals is orderly. -/
theorem Formula.orderly_of_words {f : Formula} {ts : List Expr.Token}
    (h : Expr.words false f.source.toList = some ts) (hquestion : .mark .question ∉ ts) :
    f.Orderly :=
  ⟨ts, h, Expr.unmixed_of_not_mem hquestion⟩

/-- Complete conditions of an orderly formula say what its expression says. Its tokens are written
plainly and it has no `?:` beside `&&`, so both readers find the same operators in it. -/
theorem Formula.reads {f : Formula} {ctx : Context} {v : Value} (hf : f.Orderly)
    (hcomplete : (Constraint.parse f.source).complete) (hv : f.eval ctx = .ok v) :
    ∃ e, e.eval ctx = .ok v ∧ (Constraint.parse f.source).Reads e := by
  obtain ⟨ts, hts, hunmixed⟩ := hf
  rw [Formula.eval, f.reading_eq] at hv
  cases hread : Expr.read f.source with
  | error fragment =>
    rw [hread] at hv
    cases hv
  | ok e =>
    rw [hread] at hv
    obtain ⟨ls, hls, hphrase⟩ := Expr.derives_of_read hread
    have hwords : Expr.words (Option.any Expr.Token.endsOperand none) f.source.toList = some ts :=
      hts
    rw [Expr.map_token_of_words hwords hls] at hphrase
    exact ⟨e, hv, Constraint.reads (Expr.spelled_of_words hts) hphrase hunmixed hcomplete⟩

/-- The filters of a formula accept the number of their field, where the formula has the value
required of it. -/
theorem accepts_of_mem_filtersFor {f : Formula} {ctx : Context} {v : Value} {required : Bool}
    {φ : FieldFilter} {x : Float} (hf : f.Orderly) (hφ : φ ∈ filtersFor f.source required)
    (hkeyword : Expr.keyword? φ.field = none) (hdecisive : φ.test.Decisive)
    (hlookup : ctx.lookup φ.field = some (.number x)) (hx : x.isFinite)
    (hv : f.eval ctx = .ok v) (hrequired : ∀ b, v = .bool b → b = required) :
    φ.accepts (.number x) := by
  unfold filtersFor at hφ
  dsimp only at hφ
  split at hφ
  · cases hφ
  next hcomplete =>
  rw [Bool.not_eq_true', Bool.not_eq_false] at hcomplete
  obtain ⟨e, he, hreads⟩ := Formula.reads hf hcomplete hv
  split at hφ
  · next htrue =>
    subst htrue
    obtain ⟨k, hk, hkφ⟩ := List.mem_filterMap.1 hφ
    obtain ⟨b, rfl, hholds⟩ := hreads.holds k hk φ hkφ hkeyword ctx v he
    obtain ⟨w, hw, hholds⟩ := hholds (hrequired b rfl)
    rw [hlookup] at hw
    cases hw
    exact FieldFilter.accepts_of_holds hkφ hdecisive hx hholds
  · next hfalse =>
    rw [Bool.not_eq_true] at hfalse
    subst hfalse
    split at hφ
    · next k hk =>
      rw [Option.mem_toList] at hφ
      obtain ⟨φ', hφ', rfl⟩ := Option.map_eq_some_iff.1 ((FieldFilter.ofConstraint?_negate k) ▸ hφ)
      obtain ⟨w, hw, rfl⟩ := hreads.mirrors k hk φ' hφ' hkeyword ctx v he
      obtain rfl : .number x = w := Option.some.inj (hlookup.symm.trans hw)
      refine FieldFilter.accepts_of_holds hφ hdecisive hx ?_
      rw [FieldFilter.negate, FilterTest.holds_negate (FilterTest.decisive_negate.1 hdecisive)
        (Numeric.isNaN_of_isFinite hx), hrequired _ rfl]
      rfl
    · cases hφ

/-! ### Independent fields -/

namespace Plan

variable {p : Plan} {t : Target} {drawn values computed : Scope}

/-- The derived fields leave the values of the independent ones as they are. -/
theorem get?_of_derive? {f : InputField} (hf : f ∈ p.chart.definition.independentFields)
    (h : p.derive? drawn = .ok values) : values.get? f.name = drawn.get? f.name := by
  refine FixedPoint.get?_of_resolveIn h fun entry hentry hname => ?_
  have hderived := Table.contains_of_mem hentry
  rw [hname] at hderived
  have hindependent := (List.mem_filter.1 hf).2
  rw [hderived] at hindependent
  cases hindependent

/-- A bare name that is a field refers to the field. -/
theorem lookup_context {name : String} {v : Value} (h : values.get? name = some v) :
    (p.context values computed).lookup name = some v := by
  simp only [context, Context.lookup, ite_self, h, Option.some_or]

/-- What has to be the case for an attempt to succeed on its route. -/
theorem accepted_of_judge {e : Example} (h : p.judge t drawn = .onTarget e) :
    ∃ values computed, p.derive? drawn = .ok values ∧ p.compute? values = .ok computed ∧
      (∀ f ∈ p.chart.definition.problemInput.validation.toList ++
        p.chart.definition.constraints.values, f.holds (p.context values computed)) ∧
      t.route.replays (p.context values computed) := by
  obtain ⟨values, computed, hvalues, hcomputed, hpermits, -, hreplays, -⟩ :=
    exists_of_judge_onTarget h
  refine ⟨values, computed, hvalues, hcomputed, fun f hf => ?_, hreplays⟩
  rcases List.mem_append.1 hf with hf | hf
  · exact hpermits.validation f (Option.mem_toList.1 hf)
  · exact hpermits.constraints f hf

end Plan

/-! ### Accepted problems pass -/

/-- A formula that holds has a value, and if this is a truth value it is true. -/
theorem Formula.eval_of_holds {f : Formula} {ctx : Context} (h : f.holds ctx) :
    ∃ v, f.eval ctx = .ok v ∧ ∀ b, v = .bool b → b = true := by
  rw [Formula.holds] at h
  split at h
  · next v hv =>
    refine ⟨v, hv, fun b hb => ?_⟩
    subst hb
    exact h
  · cases h

/-- The formula of a satisfied condition has a value, and if the outcome is required as a truth
value and the value is one, the two are the same. -/
theorem RouteConstraint.eval_of_satisfied {k : RouteConstraint} {ctx : Context}
    (h : k.satisfied ctx) (hboolean : k.isBoolean) :
    ∃ v, k.formula.eval ctx = .ok v ∧ ∀ b, v = .bool b → b = k.required := by
  rw [satisfied] at h
  split at h
  · cases h
  next v hv =>
  refine ⟨v, hv, fun b hb => ?_⟩
  subst hb
  rw [admits] at h
  split at h
  · next hoption hmode =>
    -- a truth value selects by its text in mode `value` only
    have hvalue : k.mode = .value := by
      cases hmode' : k.mode <;> rw [hmode'] at hmode <;> first | rfl | cases hmode
    rw [isBoolean, hoption, hvalue] at hboolean
    cases hboolean
  · exact beq_iff_eq.1 h

/-- The formulas that the filters of a route are read off are orderly. -/
structure Definition.OrderlyOn (d : Definition) (r : Route) : Prop where
  route : ∀ k ∈ r.constraints, k.isBoolean → k.formula.Orderly
  general : ∀ f ∈ d.problemInput.validation.toList ++ d.constraints.values, f.Orderly

/-- **Pruning is lossless** on a route whose formulas are orderly: the numbers of an attempt that
succeeds on its route pass every decisive filter of the route, so no value is discarded that could
have been drawn for it. A field that is named like a literal is not meant by its name. -/
theorem accepts_of_onTarget {p : Plan} {t : Target} {drawn : Scope} {e : Example}
    (horderly : p.chart.definition.OrderlyOn t.route)
    (hdrawn : ∀ f ∈ p.chart.definition.independentFields, ∀ v, drawn.get? f.name = some v →
      ∃ x : Float, v = .number x ∧ x.isFinite)
    (h : p.judge t drawn = .onTarget e) :
    ∀ φ ∈ p.chart.definition.routeFilters t.route, φ.test.Decisive →
      Expr.keyword? φ.field = none →
      ∀ f ∈ p.chart.definition.independentFields, f.name = φ.field →
      ∀ v, drawn.get? f.name = some v → φ.accepts v := by
  obtain ⟨values, computed, hvalues, -, hgeneral, hreplays⟩ := Plan.accepted_of_judge h
  intro φ hφ hdecisive hkeyword f hf hname v hv
  obtain ⟨x, rfl, hx⟩ := hdrawn f hf v hv
  have hlookup : (p.context values computed).lookup φ.field = some (.number x) := by
    rw [← hname]
    exact Plan.lookup_context ((Plan.get?_of_derive? hf hvalues).trans hv)
  rcases List.mem_append.1 hφ with hφ | hφ
  · -- a condition of the route
    obtain ⟨k, hk, hφ⟩ := List.mem_flatMap.1 hφ
    obtain ⟨hk, hboolean⟩ := List.mem_filter.1 hk
    obtain ⟨v, hv, hrequired⟩ :=
      RouteConstraint.eval_of_satisfied (List.all_eq_true.1 hreplays k hk) hboolean
    exact accepts_of_mem_filtersFor (horderly.route k hk hboolean) hφ hkeyword hdecisive hlookup hx
      hv hrequired
  · -- the validation or a generation constraint
    obtain ⟨g, hg, hφ⟩ := List.mem_flatMap.1 hφ
    obtain ⟨v, hv, hrequired⟩ := Formula.eval_of_holds (hgeneral g hg)
    exact accepts_of_mem_filtersFor (horderly.general g hg) hφ hkeyword hdecisive hlookup hx
      hv hrequired

/-- A chart that takes a number and has a single node. -/
def numberChart (validation : String) : Chart where
  definition := {
    id := "number"
    title := "A number"
    problemInput := {
      schema := "number", fields := [{ name := "n", kind := .integer }]
      validation := some (.ofSource validation) }
    entryNode := "end"
    nodes := .ofList [("end", .terminal {})]
    generation := some { preferred := .ofList [("n", [.number 7])] } }
  diagram := {}
  entry_defined := rfl

/-- A number in a range passes the filters of the range. Both come from one conjunction, which is
read as two conditions. -/
theorem accepts_of_onTarget_range :
    let p := Plan.make (numberChart "n > 50 && n < 100") {} {}
    ∃ t ∈ p.targets,
      p.chart.definition.OrderlyOn t.route ∧
      p.judge t (.ofList [("n", .number 60)]) =
        .onTarget (.ofRoute t.route (.ofList [("n", .number 60)])) ∧
      ⟨"n", .compare .less (.number 100)⟩ ∈ p.chart.definition.routeFilters t.route ∧
      FieldFilter.accepts ⟨"n", .compare .less (.number 100)⟩ (.number 60) := by
  intro p
  obtain ⟨t, ht, hroute, hjudge, hφ⟩ : ∃ t ∈ p.targets, t.route.constraints = [] ∧
      p.judge t (.ofList [("n", .number 60)]) =
        .onTarget (.ofRoute t.route (.ofList [("n", .number 60)])) ∧
      ⟨"n", .compare .less (.number 100)⟩ ∈ p.chart.definition.routeFilters t.route := by
    decide +kernel
  have horderly : p.chart.definition.OrderlyOn t.route := by
    refine ⟨fun k hk => ?_, fun f hf => ?_⟩
    · rw [hroute] at hk
      cases hk
    · obtain rfl : f = .ofSource "n > 50 && n < 100" := List.mem_singleton.1 hf
      exact Formula.orderly_of_words
        (by decide +kernel : Expr.words false "n > 50 && n < 100".toList = some [
          .name "n", .mark .greater, .number 50, .mark .and, .name "n", .mark .less, .number 100])
        (by decide)
  have hfinite : ∀ f ∈ p.chart.definition.independentFields, ∀ v,
      (Table.ofList [("n", Value.number 60)]).get? f.name = some v →
      ∃ x : Float, v = .number x ∧ x.isFinite := by
    intro f hf v hv
    obtain rfl : f = { name := "n", kind := .integer } := List.mem_singleton.1 hf
    obtain rfl := Option.some.inj hv
    exact ⟨60, rfl, by decide +kernel⟩
  exact ⟨t, ht, horderly, hjudge, hφ, accepts_of_onTarget horderly hfinite hjudge _ hφ
    (by decide +kernel) (by decide +kernel) { name := "n", kind := .integer }
    (List.mem_singleton.2 rfl) rfl _ rfl⟩

/-- **Pruning is not lossless beside a conditional.** The validation accepts 7 by its last branch,
but a condition in front of the question mark becomes a filter of its own. So 7 is never drawn,
although an attempt at it would be on target. -/
theorem not_accepts_of_conditional :
    ∃ t ∈ (Plan.make (numberChart "n > 50 && n < 100 ? true : n == 7") {} {}).targets,
      (Plan.make (numberChart "n > 50 && n < 100 ? true : n == 7") {} {}).judge t
          (.ofList [("n", .number 7)]) = .onTarget (.ofRoute t.route (.ofList [("n", .number 7)])) ∧
        ∃ φ ∈ (numberChart "n > 50 && n < 100 ? true : n == 7").definition.routeFilters t.route,
          φ.field = "n" ∧ φ.accepts (.number 7) = false := by
  decide +kernel

end ProcedureChart
