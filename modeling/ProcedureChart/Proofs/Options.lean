import Mathlib.Control.Monad.Basic
import ProcedureChart.Chart.Walk
import ProcedureChart.Route.Branch

/-!
# Options and their conditions

What an answer selects is read twice: the walk picks the place of an option (`Decision.select?`),
and the branch of each option carries the condition that the answer selects it
(`Branch.answerConstraint`). The option that the walk picks satisfies its own condition
(`Chart.satisfied_iff_of_select?`), with one exception: a lone option is picked by any truth value,
but its condition asks for a true one. The other way around, a value that satisfies the condition of
an option selects it, if the answer tells the options apart (`Chart.select?_of_admits`).
-/

namespace ProcedureChart

namespace Branch

variable {id : String} {answer : Answer} {index : Nat} {o : DecisionOption} {v : Value}

/-- Where the answer selects by its text, this has to be the value of the option. -/
theorem admits_of_byText (h : answer.mode.byText v = true) :
    (answerConstraint id answer index o).admits v = (v.display == o.value) := by
  simp only [answerConstraint, RouteConstraint.admits, h]

/-- Where it selects by its truth value, this has to be true for the first option only. -/
theorem admits_of_not_byText (h : answer.mode.byText v = false) :
    (answerConstraint id answer index o).admits v = (v.truthy == (index == 0)) := by
  simp only [answerConstraint, RouteConstraint.admits, h]

/-- The condition of an option holds where the answer has a value that it admits. -/
theorem satisfied_answerConstraint {ctx : Context} (h : answer.formula.eval ctx = .ok v) :
    (answerConstraint id answer index o).satisfied ctx =
      (answerConstraint id answer index o).admits v := by
  simp only [RouteConstraint.satisfied]
  rw [show (answerConstraint id answer index o).formula = answer.formula from rfl, h]

end Branch

namespace Decision

variable {d : Decision} {mode : AnswerMode} {v : Value}

/-- A text selects the first option with this value. -/
theorem select?_of_byText (h : mode.byText v = true) :
    d.select? mode v = d.options.findIdx? fun o => o.value == v.display := by
  rw [select?, if_pos h]

/-- A truth value selects the first option or the second, and a lone option in any case. -/
theorem select?_of_not_byText (h : mode.byText v = false) :
    d.select? mode v = some (if v.truthy || d.options.length < 2 then 0 else 1) := by
  rw [select?, if_neg (by rw [h]; exact Bool.false_ne_true)]
  split <;> rfl

end Decision

namespace Chart

section

variable {id : String} {d : Decision} {answer : Answer} {index : Nat} {o : DecisionOption}
  {v : Value}

/-- The option that a value selects admits this value, unless it is a lone one and the value is
false. -/
theorem admits_iff_of_select? (h : d.select? answer.mode v = some index)
    (ho : d.options[index]? = some o) :
    (Branch.answerConstraint id answer index o).admits v ↔
      answer.mode.byText v ∨ v.truthy ∨ 2 ≤ d.options.length := by
  obtain ⟨hindex, rfl⟩ := List.getElem?_eq_some_iff.1 ho
  cases hbyText : answer.mode.byText v with
  | true =>
    rw [Decision.select?_of_byText hbyText] at h
    obtain ⟨_, hvalue, -⟩ := List.findIdx?_eq_some_iff_getElem.1 h
    rw [Branch.admits_of_byText hbyText]
    simpa using (eq_of_beq hvalue).symm
  | false =>
    rw [Decision.select?_of_not_byText hbyText] at h
    obtain rfl := Option.some.inj h
    rw [Branch.admits_of_not_byText hbyText]
    cases htruthy : v.truthy with
    | true => simp
    | false =>
      -- the value asks for the second option, and the first one stands in if it is alone
      by_cases hlone : d.options.length < 2
      · simp [hlone]
      · simpa [hlone] using Nat.le_of_not_lt hlone

/-- The value that satisfies the condition of an option selects this option. By its text it does if
no other option has the same one, and by its truth value if there are no more than two options. -/
theorem select?_of_admits (hnodup : (d.options.map DecisionOption.value).Nodup)
    (htwo : answer.mode = .value ∨ d.options.length ≤ 2) (ho : d.options[index]? = some o)
    (hadmits : (Branch.answerConstraint id answer index o).admits v) :
    d.select? answer.mode v = some index := by
  obtain ⟨hindex, rfl⟩ := List.getElem?_eq_some_iff.1 ho
  cases hbyText : answer.mode.byText v with
  | true =>
    -- the text of the value is that of the option, and of none in front of it
    rw [Branch.admits_of_byText hbyText] at hadmits
    have hdisplay : v.display = d.options[index].value := eq_of_beq hadmits
    rw [Decision.select?_of_byText hbyText, List.findIdx?_eq_some_iff_getElem]
    refine ⟨hindex, beq_iff_eq.2 hdisplay.symm, fun j hj heq => ?_⟩
    have hne := List.pairwise_iff_getElem.1 (List.pairwise_map.1 hnodup) j index
      (Nat.lt_trans hj hindex) hindex hj
    exact hne ((eq_of_beq heq).trans hdisplay)
  | false =>
    -- the truth value tells the first option from the second, and there are no others
    rw [Branch.admits_of_not_byText hbyText] at hadmits
    have htruthy : v.truthy = (index == 0) := eq_of_beq hadmits
    have hlength : d.options.length ≤ 2 := by
      refine htwo.resolve_left fun hmode => ?_
      rw [hmode, AnswerMode.byText] at hbyText
      cases hbyText
    rw [Decision.select?_of_not_byText hbyText, htruthy]
    rcases (by omega : index = 0 ∨ index = 1) with rfl | rfl
    · rfl
    · have hboth : ¬d.options.length < 2 := by omega
      simp [hboth]

/-- An option that leads to a node has a branch, with the condition that the answer selects it. -/
theorem exists_branch_of_option {c : Chart} {target : String}
    (hexcluded : d.excludeFromExampleStructure = false) (hanswer : d.correctAnswer = some answer)
    (ho : d.options[index]? = some o) (htarget : c.optionTarget? id index o = some target) :
    ∃ b ∈ c.branches id (.decision d), b.target = target ∧
      b.step = some ⟨id, index, o.value, o.shortLabel⟩ ∧
      b.constraints =
        Branch.notSkipping id d.skip? ++ [Branch.answerConstraint id answer index o] := by
  refine ⟨Branch.choosing id d index o target, List.mem_append_right _ ?_, rfl, rfl, ?_⟩
  · exact choosing_mem_optionBranches (by rw [hexcluded]; exact Bool.false_ne_true) ho htarget
  · simp only [Branch.choosing, hanswer, Option.map_some, Option.toList_some]

end

/-- **The picked option satisfies its condition**: if the walk picks an option for the value of an
answer, the branch of that option has the condition that the answer selects it; and where the answer
has this value, the condition holds, unless a false value picks a lone option. -/
theorem satisfied_iff_of_select? (c : Chart) (id : String) {d : Decision} {answer : Answer}
    (hexcluded : d.excludeFromExampleStructure = false) (hanswer : d.correctAnswer = some answer)
    {v : Value} {index : Nat} {o : DecisionOption}
    (hselect : d.select? answer.mode v = some index) (ho : d.options[index]? = some o) :
    (∀ target, c.optionTarget? id index o = some target →
      ∃ b ∈ c.branches id (.decision d), b.target = target ∧
        b.step = some ⟨id, index, o.value, o.shortLabel⟩ ∧
        b.constraints =
          Branch.notSkipping id d.skip? ++ [Branch.answerConstraint id answer index o]) ∧
    ∀ ctx, answer.formula.eval ctx = .ok v →
      ((Branch.answerConstraint id answer index o).satisfied ctx ↔
        answer.mode.byText v ∨ v.truthy ∨ 2 ≤ d.options.length) := by
  refine ⟨fun target => exists_branch_of_option hexcluded hanswer ho, fun ctx hv => ?_⟩
  rw [Branch.satisfied_answerConstraint hv]
  exact admits_iff_of_select? hselect ho

end Chart

/-- The options of large and small numbers. -/
def largeOrSmall : List DecisionOption := [
  { label := "Large", value := "large", next := some "end" },
  { label := "Small", value := "small", next := some "end" }]

/-- The answer that tells large numbers from small ones. -/
def largeAnswer : Answer := ⟨.boolean, .ofSource "n > 20"⟩

/-- The question whether a number is large, with some of the options. -/
def largeQuestion (options : List DecisionOption) : Decision :=
  { options, correctAnswer := some largeAnswer }

/-- A chart with this question only. -/
def largeChart (options : List DecisionOption) : Chart where
  definition := {
    id := "large"
    title := "Large?"
    problemInput := { schema := "large", fields := [{ name := "n" }] }
    entryNode := "check"
    nodes := .ofList [
      ("check", .decision (largeQuestion options)),
      ("end", .terminal {})] }
  diagram := {}
  entry_defined := by simp [Table.ofList, Table.contains, Table.get?_insert]

/-- The number 12, which is not large. -/
def twelve : Context := { problem := .ofList [("n", .number 12)] }

theorem largeAnswer_twelve : largeAnswer.formula.eval twelve = .ok (.bool false) := by
  decide +kernel

/-- The walk picks the second option for the number 12, and its condition holds. -/
theorem satisfied_iff_of_select?_twelve :
    (largeQuestion largeOrSmall).select? .boolean (.bool false) = some 1 ∧
      (∃ b ∈ (largeChart largeOrSmall).branches "check" (.decision (largeQuestion largeOrSmall)),
        b.target = "end" ∧
        b.constraints = [Branch.answerConstraint "check" largeAnswer 1 largeOrSmall[1]]) ∧
      (Branch.answerConstraint "check" largeAnswer 1 largeOrSmall[1]).satisfied twelve := by
  have hselect : (largeQuestion largeOrSmall).select? .boolean (.bool false) = some 1 := by decide
  have hanswer : (largeQuestion largeOrSmall).correctAnswer = some largeAnswer := rfl
  have ho : (largeQuestion largeOrSmall).options[1]? = some largeOrSmall[1] := rfl
  obtain ⟨hbranch, hholds⟩ :=
    Chart.satisfied_iff_of_select? (largeChart largeOrSmall) "check" rfl hanswer hselect ho
  obtain ⟨b, hb, htarget, -, hconstraints⟩ := hbranch "end" (by decide +kernel)
  exact ⟨hselect, ⟨b, hb, htarget, hconstraints⟩,
    (hholds twelve largeAnswer_twelve).2 (.inr (.inr (by decide)))⟩

/-- **A lone option need not satisfy its condition**: it is picked for the number 12 as well, but
its condition asks for a large number. -/
theorem not_satisfied_of_select? :
    ¬ ∀ (id : String) (d : Decision) (answer : Answer) (v : Value) (index : Nat)
      (o : DecisionOption) (ctx : Context),
      d.excludeFromExampleStructure = false → d.correctAnswer = some answer →
        d.select? answer.mode v = some index → d.options[index]? = some o →
        answer.formula.eval ctx = .ok v →
        (Branch.answerConstraint id answer index o).satisfied ctx := by
  intro h
  have hholds := h "check" (largeQuestion [largeOrSmall[0]]) largeAnswer (.bool false) 0
    largeOrSmall[0] twelve rfl rfl (by decide) rfl largeAnswer_twelve
  rw [Branch.satisfied_answerConstraint largeAnswer_twelve] at hholds
  exact absurd hholds (by decide)

end ProcedureChart
