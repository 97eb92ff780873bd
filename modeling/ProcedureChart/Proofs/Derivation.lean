import ProcedureChart.Proofs.Expr.Stability
import ProcedureChart.Proofs.FixedPoint
import ProcedureChart.Proofs.Genuine
import ProcedureChart.Random.Mulberry

/-!
# Derived fields and variables

The derived fields and the variables of an example are resolved over what was drawn. In the end each
of them has the value of its formula, in whatever order they are visited (`fixed_of_attempt`), as
long as a name means the same before and after it is resolved. A name that the user's state has a
value for as well does not: until it is resolved, a formula that mentions it is given the state's
value, and keeps what comes of it (`not_fixed_of_attempt`).
-/

namespace ProcedureChart

/-- Whether the formulas of some entries mention no entry by a name that the user's state has a
value for as well, unless the name stands for something else in any case. -/
def Table.isUnshadowed (entries : Table Formula) (above state : Scope) : Bool :=
  entries.values.all fun f => f.names.all fun name =>
    !(entries.contains name && state.contains name) || above.contains name

theorem Table.contains_of_isUnshadowed {entries : Table Formula} {above state : Scope}
    (h : entries.isUnshadowed above state) {entry : String × Formula}
    (hentry : entry ∈ entries.entries) {name : String} (hname : name ∈ entry.2.names)
    (hcontains : entries.contains name) (hstate : state.contains name) : above.contains name := by
  have hall := List.all_eq_true.1 h entry.2 (List.mem_map_of_mem hentry)
  simpa [hcontains, hstate] using List.all_eq_true.1 hall name hname

/-! ### Contexts that grow -/

/-- Formulas are steady in contexts that look a bare name up in the growing scope behind one scope
and in front of the user's state, if no name is shadowed. -/
theorem FixedPoint.steady_of_isUnshadowed {entries : Table Formula} {above state : Scope}
    (base : Scope) (ctx : Scope → Context) (hunshadowed : entries.isUnshadowed above state)
    (hlookup : ∀ scope name, (ctx scope).lookup name =
      ((above.get? name).or (scope.get? name)).or (state.get? name))
    (hstate : ∀ {scope other : Scope}, scope.PartOf other → ∀ name v,
      (ctx scope).lookupState name = some v → (ctx other).lookupState name = some v)
    (hfresh : ∀ entry ∈ entries.entries, base.get? entry.1 = none) :
    Steady (fun (f : Formula) scope => f.eval (ctx scope)) entries.entries base where
  nodup := entries.nodup_fst_entries
  fresh := hfresh
  stays := by
    intro entry hentry scope other hgrown hother hpart
    have hkeeps : (ctx scope).Keeps (ctx other) entry.2.names := by
      refine ⟨fun name hname v hv => ?_, hstate hpart⟩
      rw [hlookup] at hv ⊢
      cases habove : above.get? name with
      | some w =>
        rw [habove] at hv
        exact hv
      | none =>
        rw [habove, Option.none_or] at hv
        rw [Option.none_or]
        cases hscope : scope.get? name with
        | some w =>
          rw [hpart name w hscope]
          rw [hscope] at hv
          exact hv
        | none =>
          rw [hscope, Option.none_or] at hv
          rcases hother.get?_eq_or_mem name with hbase | ⟨named, hnamed, rfl⟩
          · -- no entry
            cases hget : base.get? name with
            | none => rw [hbase, hget, Option.none_or, hv]
            | some w =>
              have := hgrown.base_partOf name w hget
              rw [hscope] at this
              cases this
          · -- an entry that the state has a value for
            have hcontains := Table.contains_of_isUnshadowed hunshadowed hentry hname
              (Table.contains_of_mem hnamed) (by rw [Table.contains, hv]; rfl)
            rw [Table.contains, habove] at hcontains
            cases hcontains
    obtain heq | ⟨error, herror, hunbound⟩ := Formula.eval_refines hkeeps
    · exact .inl heq
    · exact .inr ⟨error, herror, Expr.EvalError.errorClass_of_isUnbound hunbound⟩

/-! ### Drawn values -/

/-- Only the fields that are planned are drawn. -/
theorem FieldPlan.get?_of_drawAll {σ : Type} [RandomSource σ] {bias : Float}
    {plans : List FieldPlan} {scope drawn : Scope} {s : σ}
    (h : (drawAll bias plans scope s).1 = some drawn) {name : String}
    (hname : ∀ plan ∈ plans, plan.name ≠ name) : drawn.get? name = scope.get? name := by
  induction plans generalizing scope s with
  | nil =>
    cases h
    rfl
  | cons plan rest ih =>
    obtain ⟨hne, hrest⟩ := List.forall_mem_cons.1 hname
    rw [drawAll_cons] at h
    split at h
    · cases h
    · rw [ih h hrest, Table.get?_insert, if_neg hne.symm]

namespace Plan

variable {p : Plan} {t : Target} {drawn : Scope} {e : Example}

/-- What an attempt accepts is the example of what was drawn. -/
theorem exists_drawn_of_attempt {σ : Type} [RandomSource σ] {s : σ}
    (h : (p.attempt t s).1.example? = some e) :
    ∃ drawn, (FieldPlan.drawAll p.config.preferredBias t.fields .empty s).1 = some drawn ∧
      (p.judge t drawn).example? = some e := by
  rw [attempt] at h
  split at h
  · cases h
  · next drawn s' hdrawn => exact ⟨drawn, by rw [hdrawn], h⟩

/-- The values of an accepted candidate have been derived, and its variables can be computed. A
candidate for which either fails is rejected before it walks. -/
theorem exists_computed_of_judge (h : (p.judge t drawn).example? = some e) :
    p.derive? drawn = .ok e.values ∧ ∃ computed, p.compute? e.values = .ok computed := by
  obtain ⟨reason, -, hreason⟩ | ⟨values, computed, hvalues, hcomputed, -, hjudge⟩ :=
    p.judge_cases t drawn
  · rw [hreason] at h
    cases h
  have hsame : e.values = values := by
    rw [hjudge] at h
    obtain ⟨reason, -, hreason⟩ | ⟨route, -, ⟨-, -, hon⟩ | ⟨-, hoff⟩⟩ :=
      p.judgeWalk_cases t values (p.context values computed)
    · rw [hreason] at h
      cases h
    · rw [hon] at h
      cases h
      rfl
    · rw [hoff] at h
      cases h
      exact values_exampleOf ..
  rw [hsame]
  exact ⟨hvalues, computed, hcomputed⟩

/-- No derived field is drawn. -/
theorem get?_of_drawn {c : Chart} {config : Config} {constraints : UserConstraints}
    (ht : t ∈ (Plan.make c config constraints).targets) {σ : Type} [RandomSource σ] {s : σ}
    {bias : Float} (hdrawn : (FieldPlan.drawAll bias t.fields .empty s).1 = some drawn)
    {entry : String × Formula} (hentry : entry ∈ c.definition.derived.entries) :
    drawn.get? entry.1 = none := by
  rw [FieldPlan.get?_of_drawAll hdrawn fun plan hplan hname => ?_]
  · rfl
  · obtain ⟨f, hf, rfl⟩ := (mem_fields_iff ht).1 hplan
    have hname : f.name = entry.1 := hname
    have hindependent := (List.mem_filter.1 hf).2
    rw [hname, Table.contains_of_mem hentry] at hindependent
    cases hindependent

end Plan

/-! ### Fixed points -/

/-- **Derived fields and variables are fixed points** where no name is shadowed, for every chart,
configuration, user's state and source of randomness: each derived field of an example has the value
that its formula has over the values of the example, and each variable the value that its formula
has over these and all variables. Neither depends on the order in which the entries are visited. -/
theorem fixed_of_attempt {σ : Type} [RandomSource σ] (c : Chart) (config : Config)
    (constraints : UserConstraints) {t : Target}
    (ht : t ∈ (Plan.make c config constraints).targets) {s : σ} {e : Example}
    (h : ((Plan.make c config constraints).attempt t s).1.example? = some e)
    (hderived : c.definition.derived.isUnshadowed .empty constraints.toUserState) :
    let userState := constraints.toUserState
    (∀ entry ∈ c.definition.derived.entries, ∃ v, e.values.get? entry.1 = some v ∧
      entry.2.eval { problem := e.values, userState } = .ok v) ∧
    (∃ drawn, (FieldPlan.drawAll config.preferredBias t.fields .empty s).1 = some drawn ∧
      ∀ order, order.Perm c.definition.derived.entries →
        FixedPoint.resolve (fun f values => f.eval { problem := values, userState }) order drawn =
          .ok e.values) ∧
    (c.definition.computed.isUnshadowed e.values userState → ∃ computed,
      (∀ order, order.Perm c.definition.computed.entries →
        FixedPoint.resolve (fun f computed => f.eval { problem := e.values, computed, userState })
          order .empty = .ok computed) ∧
      ∀ entry ∈ c.definition.computed.entries, ∃ v, computed.get? entry.1 = some v ∧
        entry.2.eval { problem := e.values, computed, userState } = .ok v) := by
  intro userState
  obtain ⟨drawn, hdrawn, hjudge⟩ := Plan.exists_drawn_of_attempt h
  obtain ⟨hvalues, computed, hcomputed⟩ := Plan.exists_computed_of_judge hjudge
  have hsteady := FixedPoint.steady_of_isUnshadowed drawn
    (fun values => { problem := values, userState }) hderived
    (fun scope name => by simp [Context.lookup, userState])
    (fun _ name v hv => hv) (fun entry hentry => Plan.get?_of_drawn ht hdrawn hentry)
  refine ⟨fun entry hentry => FixedPoint.get?_of_resolve hsteady hvalues hentry,
    ⟨drawn, hdrawn, fun order horder => FixedPoint.resolve_of_perm hsteady hvalues horder⟩,
    fun hcomputedUnshadowed => ?_⟩
  have hsteady' := FixedPoint.steady_of_isUnshadowed .empty
    (fun computed => { problem := e.values, computed, userState }) hcomputedUnshadowed
    (fun scope name => by simp [Context.lookup])
    (fun hpart name v hv => ?_) (fun _ _ => rfl)
  · exact ⟨computed, fun order horder => FixedPoint.resolve_of_perm hsteady' hcomputed horder,
      fun entry hentry => FixedPoint.get?_of_resolve hsteady' hcomputed hentry⟩
  · simp only [Context.lookupState] at hv ⊢
    cases hstate : userState.get? name with
    | some w =>
      rw [hstate] at hv
      exact hv
    | none =>
      rw [hstate, Option.none_or] at hv
      rw [Option.none_or]
      exact hpart name v hv

/-- A chart with derived fields and variables that are declared before what they refer to. -/
def ladderChart : Chart where
  definition := {
    id := "ladder"
    title := "A ladder"
    problemInput := { schema := "ladder", fields := [{ name := "n", kind := .integer }] }
    entryNode := "end"
    nodes := .ofList [("end", .terminal {})]
    computed := .ofList [("v", .ofSource "w * 2"), ("w", .ofSource "x + $step")]
    generation := some {
      preferred := .ofList [("n", [.number 3])]
      derived := .ofList [("x", .ofSource "y + 1"), ("y", .ofSource "n")] } }
  diagram := {}
  entry_defined := by decide

/-- The user's state with a step, and perhaps a value under the name of a derived field. -/
def ladderState (extra : List (String × Value)) : UserConstraints :=
  { extra := .ofList (("step", .number 10) :: extra) }

/-- An example of the chart. -/
def ladderExample (values : List (String × Value)) : Example where
  values := .ofList values
  complexity := ⟨0, 1⟩
  signature := "end"
  descriptor := "Default"

/-- Both ladders are climbed in the second pass, since each has its first rung declared last. The
values satisfy the formulas nevertheless. -/
theorem fixed_of_attempt_ladder :
    let p := Plan.make ladderChart {} (ladderState [])
    let e := ladderExample [("n", .number 3), ("x", .number 4), ("y", .number 3)]
    ∃ t ∈ p.targets, (p.attempt t (Mulberry32.ofSeed 42)).1.example? = some e ∧
      ladderChart.definition.derived.isUnshadowed .empty (ladderState []).toUserState ∧
      ladderChart.definition.computed.isUnshadowed e.values (ladderState []).toUserState ∧
      (∃ v, e.values.get? "x" = some v ∧
        (Formula.ofSource "y + 1").eval
          { problem := e.values, userState := (ladderState []).toUserState } = .ok v) ∧
      ∃ computed v, computed.get? "v" = some v ∧
        (Formula.ofSource "w * 2").eval
          { problem := e.values, computed, userState := (ladderState []).toUserState } = .ok v := by
  intro p e
  obtain ⟨t, ht, hattempt⟩ : ∃ t ∈ p.targets,
      (p.attempt t (Mulberry32.ofSeed 42)).1.example? = some e := by decide +kernel
  have hderived : ladderChart.definition.derived.isUnshadowed .empty
      (ladderState []).toUserState := by decide +kernel
  have hcomputed : ladderChart.definition.computed.isUnshadowed e.values
      (ladderState []).toUserState := by decide +kernel
  obtain ⟨hfields, -, hvariables⟩ :=
    fixed_of_attempt ladderChart {} (ladderState []) ht hattempt hderived
  obtain ⟨computed, -, hvariables⟩ := hvariables hcomputed
  obtain ⟨v, hv⟩ := hvariables ("v", .ofSource "w * 2") (by decide +kernel)
  exact ⟨t, ht, hattempt, hderived, hcomputed, hfields ("x", .ofSource "y + 1") (by decide +kernel),
    computed, v, hv⟩

/-- **Shadowed names break the fixed point.** With a value of `y` in the user's state, `x` is
derived from this value before `y` is derived; visited in the other order, it is derived from the
`y` of the example. -/
theorem not_fixed_of_attempt :
    let p := Plan.make ladderChart {} (ladderState [("y", .number 100)])
    let userState := (ladderState [("y", .number 100)]).toUserState
    let e := ladderExample [("n", .number 3), ("x", .number 101), ("y", .number 3)]
    (∃ t ∈ p.targets, (p.attempt t (Mulberry32.ofSeed 42)).1.example? = some e) ∧
      ladderChart.definition.derived.get? "x" = some (.ofSource "y + 1") ∧
      e.values.get? "x" = some (.number 101) ∧
      (Formula.ofSource "y + 1").eval { problem := e.values, userState } = .ok (.number 4) ∧
      FixedPoint.resolve (fun (f : Formula) values => f.eval { problem := values, userState })
          ladderChart.definition.derived.entries.reverse (.ofList [("n", .number 3)]) =
        .ok (.ofList [("n", .number 3), ("x", .number 4), ("y", .number 3)]) := by
  decide +kernel

end ProcedureChart
