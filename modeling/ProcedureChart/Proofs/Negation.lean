import ProcedureChart.Proofs.Pruning

/-!
# Filters of both outcomes

A condition that must hold and its negation, for the condition that must not, become filters of one
field, and no value passes both (`FieldFilter.Splits`). Every value of which the test says something
passes one of them (`FilterTest.Decides`): equality says something of every value, an order of two
numbers, and divisibility of what has a remainder. So no such value is lost to both outcomes of a
decision (`splits_negate`). What has no remainder is refused as divisible and as not divisible, on
purpose (`not_splits_negate`).
-/

namespace ProcedureChart

/-! ### Tests -/

namespace FilterTest

/-- Whether a test says yes or no of a value: an order needs two numbers, divisibility a finite
number and a divisor. -/
def Decides : FilterTest → Value → Prop
  | compare op literal, v =>
    op = .equal ∨ op = .notEqual ∨ v.toNumber.isNaN = false ∧ literal.toNumber.isNaN = false
  | divisible divisor _, v => v.toNumber.isFinite = true ∧ divisor.isNaN = false

instance (test : FilterTest) (v : Value) : Decidable (test.Decides v) :=
  match test with
  | compare op literal =>
    inferInstanceAs (Decidable (op = .equal ∨ op = .notEqual ∨
      v.toNumber.isNaN = false ∧ literal.toNumber.isNaN = false))
  | divisible divisor _ =>
    inferInstanceAs (Decidable (v.toNumber.isFinite = true ∧ divisor.isNaN = false))

end FilterTest

/-- An operator and its opposite never both hold, not even beside NaN. No order holds there, so
neither of the two does. -/
theorem CompareOp.not_holds_both (op : CompareOp) (v literal : Value) :
    ¬(op.holds v literal = true ∧ op.negate.holds v literal = true) := by
  rintro ⟨hop, hnegate⟩
  cases op with
  | equal =>
    have hne : (!v.equals literal) = true := hnegate
    rw [show v.equals literal = true from hop] at hne
    cases hne
  | notEqual =>
    have hne : (!v.equals literal) = true := hop
    rw [show v.equals literal = true from hnegate] at hne
    cases hne
  | greaterEqual | lessEqual =>
    exact Numeric.not_le_of_lt (of_decide_eq_true hnegate) (of_decide_eq_true hop)
  | greater | less =>
    exact Numeric.not_le_of_lt (of_decide_eq_true hop) (of_decide_eq_true hnegate)

/-! ### Filters -/

namespace FieldFilter

/-- Two filters of one field as those of a condition and of its negation. -/
structure Splits (φ φ' : FieldFilter) : Prop where
  field : φ'.field = φ.field
  /-- nothing passes both -/
  disjoint : ∀ v, ¬(φ.accepts v = true ∧ φ'.accepts v = true)
  /-- what the test says something of passes one of them -/
  covers : ∀ v, φ.test.Decides v → φ.accepts v = true ∨ φ'.accepts v = true
  /-- what has no remainder passes neither of them -/
  refuses : ∀ divisor expected, φ.test = .divisible divisor expected →
    ∀ v, ¬φ.test.Decides v → φ.accepts v = false ∧ φ'.accepts v = false

theorem accepts_compare (field : String) (op : CompareOp) (literal v : Value) :
    accepts ⟨field, .compare op literal⟩ v = op.holds v literal := rfl

theorem accepts_divisible (field : String) (divisor : Float) (expected : Bool) (v : Value) :
    accepts ⟨field, .divisible divisor expected⟩ v =
      (!(Numeric.remainder v.toNumber divisor).isNaN &&
        (Numeric.remainder v.toNumber divisor == 0.0) == expected) := rfl

/-- The filter of a constraint and its opposite split the values. A divisor of a filter is never 0,
which is what a remainder needs to exist. -/
theorem splits_negate_of_ofConstraint? {k : Constraint} {φ : FieldFilter}
    (h : ofConstraint? k = some φ) : φ.Splits φ.negate := by
  obtain ⟨field, test⟩ := φ
  cases test with
  | compare op literal =>
    refine ⟨rfl, fun v => CompareOp.not_holds_both op v literal, fun v hv => ?_, nofun⟩
    rw [negate, FilterTest.negate, accepts_compare, accepts_compare, CompareOp.holds_negate hv]
    cases op.holds v literal <;> decide
  | divisible divisor expected =>
    have hzero := divisor_ne_zero h rfl
    refine ⟨rfl, fun v => ?_, fun v hv => ?_, fun _ _ htest v hv => ?_⟩
    · rw [negate, FilterTest.negate, accepts_divisible, accepts_divisible]
      cases (Numeric.remainder v.toNumber divisor).isNaN <;>
        cases Numeric.remainder v.toNumber divisor == 0.0 <;> cases expected <;> decide
    · rw [negate, FilterTest.negate, accepts_divisible, accepts_divisible,
        Numeric.remainder_isNaN hv.1 hv.2 hzero]
      cases Numeric.remainder v.toNumber divisor == 0.0 <;> cases expected <;> decide
    · rw [negate, FilterTest.negate, accepts_divisible, accepts_divisible,
        Numeric.remainder_isNaN_of_not hv]
      exact ⟨rfl, rfl⟩

end FieldFilter

/-- What a formula that must not hold implies is the opposite of the one thing it implies when it
must. -/
theorem splits_of_mem_filtersFor {expr : String} {φ φ' : FieldFilter}
    (hφ : φ ∈ filtersFor expr true) (hφ' : φ' ∈ filtersFor expr false) : φ.Splits φ' := by
  unfold filtersFor at hφ hφ'
  dsimp only at hφ hφ'
  split at hφ'
  · cases hφ'
  · next hcomplete =>
    rw [if_neg hcomplete, if_pos rfl] at hφ
    rw [if_neg Bool.false_ne_true] at hφ'
    split at hφ'
    · next k hk =>
      rw [hk] at hφ
      obtain ⟨k', hk', hfilter⟩ := List.mem_filterMap.1 hφ
      obtain rfl := List.mem_singleton.1 hk'
      rw [FieldFilter.ofConstraint?_negate, hfilter] at hφ'
      obtain rfl := List.mem_singleton.1 hφ'
      exact FieldFilter.splits_negate_of_ofConstraint? hfilter
    · cases hφ'

/-! ### Outcomes -/

/-- **Negation splits the values.** Where a condition in an expression becomes a filter, so does its
negation: for the same field, for no value that passes the first one, and for every other value that
the test says something of. The filters of the two outcomes of a decision are such a pair, so that
no value the test says something of is refused by both. -/
theorem splits_negate (expr : String) :
    (∀ k ∈ (Constraint.parse expr).constraints, ∀ φ, FieldFilter.ofConstraint? k = some φ →
      ∃ φ', FieldFilter.ofConstraint? k.negate = some φ' ∧ φ.Splits φ') ∧
    ∀ φ ∈ filtersFor expr true, ∀ φ' ∈ filtersFor expr false, φ.Splits φ' := by
  refine ⟨fun k _ φ hφ => ⟨φ.negate, ?_, FieldFilter.splits_negate_of_ofConstraint? hφ⟩,
    fun φ hφ φ' hφ' => splits_of_mem_filtersFor hφ hφ'⟩
  rw [FieldFilter.ofConstraint?_negate, hφ]
  rfl

/-- The multiples of 3 and the other numbers, and a text that is no number. -/
theorem splits_negate_multiple :
    let φ : FieldFilter := ⟨"n", .divisible 3 true⟩
    let φ' : FieldFilter := ⟨"n", .divisible 3 false⟩
    φ ∈ filtersFor "n % 3 == 0" true ∧ φ' ∈ filtersFor "n % 3 == 0" false ∧ φ.Splits φ' ∧
      (φ.accepts (.number 7) = true ∨ φ'.accepts (.number 7) = true) ∧
      (φ.accepts (.text "abc") = false ∧ φ'.accepts (.text "abc") = false) := by
  intro φ φ'
  have hφ : φ ∈ filtersFor "n % 3 == 0" true := by decide +kernel
  have hφ' : φ' ∈ filtersFor "n % 3 == 0" false := by decide +kernel
  have hsplits := (splits_negate "n % 3 == 0").2 φ hφ φ' hφ'
  exact ⟨hφ, hφ', hsplits, hsplits.covers _ (by decide +kernel),
    hsplits.refuses 3 true rfl _ (by decide +kernel)⟩

/-- **Not all values are split.** A text that is no number has no remainder, so a test of
divisibility refuses it under both outcomes. Such a filter says that a value is divisible or that it
is not, and this one is neither. -/
theorem not_splits_negate :
    ¬∀ expr, ∀ k ∈ (Constraint.parse expr).constraints, ∀ φ,
      FieldFilter.ofConstraint? k = some φ →
      ∃ φ', FieldFilter.ofConstraint? k.negate = some φ' ∧ φ'.field = φ.field ∧
        ∀ v, φ'.accepts v = !φ.accepts v := by
  intro h
  obtain ⟨φ', hφ', -, hopposite⟩ := h "n % 3 == 0" (.divisibility "n" true "3")
    (by decide +kernel) ⟨"n", .divisible 3 true⟩ (by decide +kernel)
  obtain rfl : ⟨"n", .divisible 3 false⟩ = φ' :=
    Option.some.inj ((by decide +kernel :
      FieldFilter.ofConstraint? (Constraint.divisibility "n" true "3").negate =
        some ⟨"n", .divisible 3 false⟩).symm.trans hφ')
  exact absurd (hopposite (.text "abc")) (by decide +kernel)

end ProcedureChart
