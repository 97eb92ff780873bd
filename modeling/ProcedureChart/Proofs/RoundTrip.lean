import ProcedureChart.Chart.Writing
import ProcedureChart.Proofs.Json.Codec
import ProcedureChart.Proofs.Json.Printing

/-!
# Reading written definitions

A definition that was read off a text is read again from what it is written as, and the same
(`Definition.parse?_render`). Two facts about each type of data of the format lead there, from
values up to definitions. Reading undoes writing (`undoes`), for all data: alternatives are told
apart by the form they are written in, optional fields are written as null and fields with a default
are written out. And what is read off a value with finite numbers is written with finite numbers and
within a depth of its type (`keepsFinite`), which is what it takes to be read back from a text.
-/

namespace ProcedureChart

open Json (required Undoes KeepsFinite Finite undoes_text undoes_bool undoes_float keepsFinite_text
  keepsFinite_float record?_object finite_of_record? finite_object finite_ofList_nil
  finite_ofTable_empty required_cons_of_ne optional_cons_of_ne withDefault_cons_of_ne)

variable {depth : Nat}

theorem text_ne_null (s : String) : Json.text s ≠ .null := nofun

theorem ofFloat_ne_null (x : Float) : Json.ofFloat x ≠ .null := nofun

/-! ### Formulas and values -/

namespace Formula

/-- A formula is written as its source text and read from it again. The reading of the text is part
of the formula, so the same text gives the same formula, a malformed one included. -/
theorem undoes : Undoes ofJson? toJson := fun f => congrArg some f.ofSource_source

theorem toJson_ne_null (f : Formula) : f.toJson ≠ .null := nofun

/-- A formula is a text, and texts have no numbers and no depth. -/
theorem keepsFinite : KeepsFinite depth ofJson? toJson := fun _ _ _ _ _ => .text _

end Formula

namespace Value

/-- A value is written in the form of its own kind. The only record among values is the mixed
number, so an object that has its three fields can be nothing else. -/
theorem undoes : Undoes ofJson? toJson := by
  intro v
  cases v with
  | mixed whole num denom =>
    simp [ofJson?, toJson, record?_object, undoes_float.required_cons, required_cons_of_ne]
  | null | bool | number | text => rfl

/-- What a value was read off is either written unchanged, or it is a record with three numbers in
it, whatever else that record held. -/
theorem keepsFinite : KeepsFinite (depth + 1) ofJson? toJson := by
  intro n j v hj hread
  cases hj with
  | null =>
    cases hread
    exact .null
  | bool b =>
    cases hread
    exact .bool b
  | number hn =>
    cases hread
    exact .number hn
  | text s =>
    cases hread
    exact .text s
  | list => cases hread
  | object hfields =>
    simp only [ofJson?, Option.bind_eq_bind, Option.bind_eq_some_iff, Option.pure_def,
      Option.some.injEq] at hread
    obtain ⟨r, hr, whole, hwhole, num, hnum, denom, hdenom, rfl⟩ := hread
    obtain ⟨m, hr⟩ := finite_of_record? (.object hfields) hr
    exact finite_object ⟨keepsFinite_float.required hr hwhole,
      keepsFinite_float.required hr hnum, keepsFinite_float.required hr hdenom⟩

end Value

/-- A scope is a table of values under their names, and reading keeps the names in their order. -/
theorem Scope.undoes : Undoes Scope.ofJson? Scope.toJson := Value.undoes.table

theorem Scope.keepsFinite : KeepsFinite (depth + 2) Scope.ofJson? Scope.toJson :=
  Value.keepsFinite.table

/-! ### The problem -/

theorem FieldKind.undoes : Undoes FieldKind.ofJson? fun kind => .text kind.name := by
  intro kind
  cases kind <;> decide

namespace InputField

/-- A field of the problem. The kind and the options are always written out, the other fields may be
null, and null is what no text and no number is written as. -/
theorem undoes : Undoes ofJson? toJson := by
  intro f
  simp [ofJson?, toJson, record?_object, optional_cons_of_ne, withDefault_cons_of_ne,
    undoes_text.required_cons, FieldKind.undoes.withDefault_cons,
    undoes_text.optional_cons text_ne_null, undoes_float.optional_cons ofFloat_ne_null,
    Value.undoes.list.withDefault_cons]

/-- The options lie deepest: values, which may be records, in a list, in a field of the record. -/
theorem keepsFinite : KeepsFinite (depth + 3) ofJson? toJson := by
  intro n j f hj hread
  simp only [ofJson?, Option.bind_eq_bind, Option.bind_eq_some_iff, Option.pure_def,
    Option.some.injEq] at hread
  obtain ⟨r, hr, name, -, kind, -, label, hlabel, min, hmin, max, hmax, options, hoptions, rfl⟩ :=
    hread
  obtain ⟨m, hr⟩ := finite_of_record? hj hr
  exact finite_object ⟨.text _, .text _, keepsFinite_text.optional hr hlabel,
    keepsFinite_float.optional hr hmin, keepsFinite_float.optional hr hmax,
    Value.keepsFinite.list.withDefault hr finite_ofList_nil hoptions⟩

end InputField

namespace SampleProblem

theorem undoes : Undoes ofJson? toJson := by
  intro p
  simp [ofJson?, toJson, record?_object, required_cons_of_ne,
    undoes_text.optional_cons text_ne_null, Scope.undoes.required_cons]

theorem keepsFinite : KeepsFinite (depth + 3) ofJson? toJson := by
  intro n j p hj hread
  simp only [ofJson?, Option.bind_eq_bind, Option.bind_eq_some_iff, Option.pure_def,
    Option.some.injEq] at hread
  obtain ⟨r, hr, name, hname, values, hvalues, rfl⟩ := hread
  obtain ⟨m, hr⟩ := finite_of_record? hj hr
  exact finite_object ⟨keepsFinite_text.optional hr hname, Scope.keepsFinite.required hr hvalues⟩

end SampleProblem

namespace ProblemInput

/-- The input of the problem. Its fields and its samples are records of their own, and a validation
that is missing is written as null. -/
theorem undoes : Undoes ofJson? toJson := by
  intro p
  simp [ofJson?, toJson, record?_object, required_cons_of_ne, optional_cons_of_ne,
    withDefault_cons_of_ne, undoes_text.required_cons, InputField.undoes.list.required_cons,
    Formula.undoes.optional_cons Formula.toJson_ne_null,
    SampleProblem.undoes.list.withDefault_cons]

/-- The samples lie deepest: a mixed number is a record in a table of values, in a record, in a
list. -/
theorem keepsFinite : KeepsFinite (depth + 5) ofJson? toJson := by
  intro n j p hj hread
  simp only [ofJson?, Option.bind_eq_bind, Option.bind_eq_some_iff, Option.pure_def,
    Option.some.injEq] at hread
  obtain ⟨r, hr, schema, -, fields, hfields, validation, hvalidation, examples, hexamples, rfl⟩ :=
    hread
  obtain ⟨m, hr⟩ := finite_of_record? hj hr
  exact finite_object ⟨.text _, InputField.keepsFinite.list.required hr hfields,
    Formula.keepsFinite.optional hr hvalidation,
    SampleProblem.keepsFinite.list.withDefault hr finite_ofList_nil hexamples⟩

end ProblemInput

namespace GenerationHints

/-- The hints for generation: formulas of derived fields and preferred values, both tables that are
written even if they are empty. -/
theorem undoes : Undoes ofJson? toJson := by
  intro h
  simp [ofJson?, toJson, record?_object, withDefault_cons_of_ne,
    undoes_text.optional_cons text_ne_null, Formula.undoes.table.withDefault_cons,
    Value.undoes.list.table.withDefault_cons]

theorem toJson_ne_null (h : GenerationHints) : h.toJson ≠ .null := nofun

/-- The preferred values lie deepest: each name has a list of values, which may be records. -/
theorem keepsFinite : KeepsFinite (depth + 4) ofJson? toJson := by
  intro n j h hj hread
  simp only [ofJson?, Option.bind_eq_bind, Option.bind_eq_some_iff, Option.pure_def,
    Option.some.injEq] at hread
  obtain ⟨r, hr, target, htarget, derived, hderived, preferred, hpreferred, rfl⟩ := hread
  obtain ⟨m, hr⟩ := finite_of_record? hj hr
  exact finite_object ⟨keepsFinite_text.optional hr htarget,
    Formula.keepsFinite.table.withDefault hr finite_ofTable_empty hderived,
    Value.keepsFinite.list.table.withDefault hr finite_ofTable_empty hpreferred⟩

end GenerationHints

namespace DisplayTemplates

theorem undoes : Undoes ofJson? toJson := by
  intro t
  simp [ofJson?, toJson, record?_object, optional_cons_of_ne,
    undoes_text.optional_cons text_ne_null]

theorem toJson_ne_null (t : DisplayTemplates) : t.toJson ≠ .null := nofun

theorem keepsFinite : KeepsFinite (depth + 1) ofJson? toJson := by
  intro n j t hj hread
  simp only [ofJson?, Option.bind_eq_bind, Option.bind_eq_some_iff, Option.pure_def,
    Option.some.injEq] at hread
  obtain ⟨r, hr, problem, hproblem, answer, hanswer, rfl⟩ := hread
  obtain ⟨m, hr⟩ := finite_of_record? hj hr
  exact finite_object ⟨keepsFinite_text.optional hr hproblem,
    keepsFinite_text.optional hr hanswer⟩

end DisplayTemplates

/-! ### Nodes -/

namespace WorkingProblem

theorem undoes : Undoes ofJson? toJson := by
  intro w
  simp [ofJson?, toJson, record?_object, optional_cons_of_ne, undoes_text.required_cons,
    undoes_text.optional_cons text_ne_null]

theorem toJson_ne_null (w : WorkingProblem) : w.toJson ≠ .null := nofun

theorem keepsFinite : KeepsFinite (depth + 1) ofJson? toJson := by
  intro n j w hj hread
  simp only [ofJson?, Option.bind_eq_bind, Option.bind_eq_some_iff, Option.pure_def,
    Option.some.injEq] at hread
  obtain ⟨r, hr, result, -, label, hlabel, rfl⟩ := hread
  obtain ⟨m, hr⟩ := finite_of_record? hj hr
  exact finite_object ⟨.text _, keepsFinite_text.optional hr hlabel⟩

end WorkingProblem

namespace DecisionOption

/-- An option has to have a label and a value, while the node behind it and its label for paths may
be left out. -/
theorem undoes : Undoes ofJson? toJson := by
  intro o
  simp [ofJson?, toJson, record?_object, required_cons_of_ne, optional_cons_of_ne,
    undoes_text.required_cons, undoes_text.optional_cons text_ne_null]

theorem keepsFinite : KeepsFinite (depth + 1) ofJson? toJson := by
  intro n j o hj hread
  simp only [ofJson?, Option.bind_eq_bind, Option.bind_eq_some_iff, Option.pure_def,
    Option.some.injEq] at hread
  obtain ⟨r, hr, label, -, value, -, next, hnext, pathLabel, hpathLabel, rfl⟩ := hread
  obtain ⟨m, hr⟩ := finite_of_record? hj hr
  exact finite_object ⟨.text _, .text _, keepsFinite_text.optional hr hnext,
    keepsFinite_text.optional hr hpathLabel⟩

end DecisionOption

namespace Answer

/-- Each mode is written in a form that only this mode is read from. -/
theorem undoes : Undoes ofJson? toJson := by
  intro a
  obtain ⟨mode, formula⟩ := a
  cases mode with
  | inferred => exact congrArg (fun f => some (Answer.mk .inferred f)) formula.ofSource_source
  | boolean =>
    simp [ofJson?, pinned?, toJson, Json.object?, record?_object, Formula.undoes.required_cons]
  | value =>
    have hboolean : required "boolean" Formula.ofJson? [("value", formula.toJson)] = none := by
      rw [required_cons_of_ne (by decide)]
      rfl
    simp [ofJson?, pinned?, toJson, Json.object?, record?_object, hboolean,
      Formula.undoes.required_cons]

/-- No mode of an answer is written as null, so a decision without an answer is told from one with
it. -/
theorem toJson_ne_null (a : Answer) : a.toJson ≠ .null := by
  obtain ⟨mode, formula⟩ := a
  cases mode <;> exact nofun

/-- Whatever an answer was read off, it is written as a text or as a record with one text in it. -/
theorem keepsFinite : KeepsFinite (depth + 1) ofJson? toJson := by
  intro n j a _ _
  obtain ⟨mode, formula⟩ := a
  cases mode with
  | inferred => exact .text _
  | boolean => exact finite_object (.text _)
  | value => exact finite_object (.text _)

end Answer

namespace Expected

/-- A single expected formula is written as a text and several are written as a list, so one formula
alone in a list stays a list. -/
theorem undoes : Undoes ofJson? toJson := by
  intro e
  cases e with
  | single f => exact congrArg (fun f => some (single f)) f.ofSource_source
  | anyOf fs =>
    have hformulas : Json.listOf? Formula.ofJson? (Json.ofList Formula.toJson fs) = some fs :=
      Formula.undoes.list fs
    exact congrArg (Option.map anyOf) hformulas

/-- Whatever was expected, it is written as a text or as a list of texts. -/
theorem keepsFinite : KeepsFinite (depth + 1) ofJson? toJson := by
  intro n j e _ _
  cases e with
  | single f => exact .text _
  | anyOf fs =>
    refine .list fun value hvalue => ?_
    obtain ⟨f, -, rfl⟩ := List.mem_map.1 hvalue
    exact .text _

end Expected

/-- The kind of a node stands in its `type` field. -/
theorem tagged?_object {kind : String} {fields : List (String × Json)}
    (h : ((("type", Json.text kind) :: fields).map Prod.fst).Nodup) :
    Node.tagged? (.object (("type", .text kind) :: fields)) =
      some (kind, .object (("type", .text kind) :: fields)) := by
  simp [Node.tagged?, record?_object h, undoes_text.required_cons]

/-- The record of a node's fields has finite numbers if the node has. -/
theorem finite_of_tagged? {n : Nat} {j record : Json} {kind : String} (hj : Finite n j)
    (h : Node.tagged? j = some (kind, record)) : Finite n record := by
  unfold Node.tagged? at h
  split at h
  · simp only [Option.bind_eq_bind, Option.bind_eq_some_iff, Option.pure_def, Option.some.injEq,
      Prod.mk.injEq] at h
    obtain ⟨-, -, -, -, -, rfl⟩ := h
    exact hj
  · cases h
    cases hj with
    | list hj => exact .list fun value hvalue => hj value (List.mem_cons_of_mem _ hvalue)
  · cases h

namespace Instruction

/-- An instruction among its fields. The kind in front of them is no field of an instruction, and
the reader passes over it. -/
theorem undoes : Undoes ofJson? fun n => Node.toJson (.instruction n) := by
  intro n
  simp [ofJson?, Node.toJson, record?_object, optional_cons_of_ne,
    undoes_text.optional_cons text_ne_null,
    WorkingProblem.undoes.optional_cons WorkingProblem.toJson_ne_null]

theorem keepsFinite : KeepsFinite (depth + 2) ofJson? fun n => Node.toJson (.instruction n) := by
  intro n j i hj hread
  simp only [ofJson?, Option.bind_eq_bind, Option.bind_eq_some_iff, Option.pure_def,
    Option.some.injEq] at hread
  obtain ⟨r, hr, next, hnext, content, hcontent, workingProblem, hworkingProblem, rfl⟩ := hread
  obtain ⟨m, hr⟩ := finite_of_record? hj hr
  exact finite_object ⟨.text _, keepsFinite_text.optional hr hnext,
    keepsFinite_text.optional hr hcontent,
    WorkingProblem.keepsFinite.optional hr hworkingProblem⟩

end Instruction

namespace Decision

/-- A decision among its fields: the options, the answer in the form of its mode, and the condition
to skip with the node to skip to, which may each be missing. -/
theorem undoes : Undoes ofJson? fun n => Node.toJson (.decision n) := by
  intro d
  simp [ofJson?, Node.toJson, record?_object, required_cons_of_ne, optional_cons_of_ne,
    withDefault_cons_of_ne, DecisionOption.undoes.list.required_cons,
    Answer.undoes.optional_cons Answer.toJson_ne_null,
    Formula.undoes.optional_cons Formula.toJson_ne_null, undoes_text.optional_cons text_ne_null,
    undoes_bool.withDefault_cons]

/-- The options lie deepest: records in a list, in a field of the decision. -/
theorem keepsFinite : KeepsFinite (depth + 3) ofJson? fun n => Node.toJson (.decision n) := by
  intro n j d hj hread
  simp only [ofJson?, Option.bind_eq_bind, Option.bind_eq_some_iff, Option.pure_def,
    Option.some.injEq] at hread
  obtain ⟨r, hr, options, hoptions, correctAnswer, hcorrectAnswer, skipIf, hskipIf, skipTo, hskipTo,
    exclude, -, content, hcontent, rfl⟩ := hread
  obtain ⟨m, hr⟩ := finite_of_record? hj hr
  exact finite_object ⟨.text _, DecisionOption.keepsFinite.list.required hr hoptions,
    Answer.keepsFinite.optional hr hcorrectAnswer, Formula.keepsFinite.optional hr hskipIf,
    keepsFinite_text.optional hr hskipTo, .bool _, keepsFinite_text.optional hr hcontent⟩

end Decision

namespace Checkpoint

/-- A checkpoint among its fields. The tolerance is the only number, and what is expected is always
written. -/
theorem undoes : Undoes ofJson? fun n => Node.toJson (.checkpoint n) := by
  intro c
  simp [ofJson?, Node.toJson, record?_object, required_cons_of_ne, optional_cons_of_ne,
    withDefault_cons_of_ne, undoes_text.required_cons, Expected.undoes.required_cons,
    undoes_float.optional_cons ofFloat_ne_null, undoes_text.optional_cons text_ne_null,
    Formula.undoes.optional_cons Formula.toJson_ne_null, undoes_bool.withDefault_cons]

/-- A tolerance is read as a finite number, so it is written as one, and no list of a checkpoint has
anything but texts in it. -/
theorem keepsFinite : KeepsFinite (depth + 2) ofJson? fun n => Node.toJson (.checkpoint n) := by
  intro n j c hj hread
  simp only [ofJson?, Option.bind_eq_bind, Option.bind_eq_some_iff, Option.pure_def,
    Option.some.injEq] at hread
  obtain ⟨r, hr, prompt, -, expected, hexpected, tolerance, htolerance, next, hnext, skipIf,
    hskipIf, skipTo, hskipTo, exclude, -, rfl⟩ := hread
  obtain ⟨m, hr⟩ := finite_of_record? hj hr
  exact finite_object ⟨.text _, .text _, Expected.keepsFinite.required hr hexpected,
    keepsFinite_float.optional hr htolerance, keepsFinite_text.optional hr hnext,
    Formula.keepsFinite.optional hr hskipIf, keepsFinite_text.optional hr hskipTo, .bool _⟩

end Checkpoint

namespace PassThrough

/-- A milestone and an embellishment have the same fields, and only the kind in front of them
differs. -/
theorem undoes_milestone : Undoes ofJson? fun n => Node.toJson (.milestone n) := by
  intro p
  simp [ofJson?, Node.toJson, record?_object, optional_cons_of_ne,
    undoes_text.optional_cons text_ne_null]

theorem undoes_embellishment : Undoes ofJson? fun n => Node.toJson (.embellishment n) := by
  intro p
  simp [ofJson?, Node.toJson, record?_object, optional_cons_of_ne,
    undoes_text.optional_cons text_ne_null]

/-- What a node hands on is text: the node behind it and its content, if there are any. -/
theorem finite_fields {n : Nat} {j : Json} {p : PassThrough} (hj : Finite n j)
    (hread : ofJson? j = some p) :
    Finite depth (Json.ofOption .text p.next) ∧ Finite depth (Json.ofOption .text p.content) := by
  simp only [ofJson?, Option.bind_eq_bind, Option.bind_eq_some_iff, Option.pure_def,
    Option.some.injEq] at hread
  obtain ⟨r, hr, next, hnext, content, hcontent, rfl⟩ := hread
  obtain ⟨m, hr⟩ := finite_of_record? hj hr
  exact ⟨keepsFinite_text.optional hr hnext, keepsFinite_text.optional hr hcontent⟩

end PassThrough

namespace Terminal

theorem undoes : Undoes ofJson? fun n => Node.toJson (.terminal n) := by
  intro t
  simp [ofJson?, Node.toJson, record?_object, optional_cons_of_ne, withDefault_cons_of_ne,
    undoes_bool.withDefault_cons, undoes_text.optional_cons text_ne_null]

theorem keepsFinite : KeepsFinite (depth + 1) ofJson? fun n => Node.toJson (.terminal n) := by
  intro n j t hj hread
  simp only [ofJson?, Option.bind_eq_bind, Option.bind_eq_some_iff, Option.pure_def,
    Option.some.injEq] at hread
  obtain ⟨r, hr, celebration, -, content, hcontent, rfl⟩ := hread
  obtain ⟨m, hr⟩ := finite_of_record? hj hr
  exact finite_object ⟨.text _, .bool _, keepsFinite_text.optional hr hcontent⟩

end Terminal

namespace Node

/-- A node is written with its kind in front, and the kind picks the reader of the fields. There is
one case for each kind. -/
theorem undoes : Undoes ofJson? toJson := by
  intro node
  cases node with
  | instruction n =>
    have hrecord := Instruction.undoes n
    simp only [toJson] at hrecord
    simp [ofJson?, toJson, tagged?_object, hrecord]
  | decision n =>
    have hrecord := Decision.undoes n
    simp only [toJson] at hrecord
    simp [ofJson?, toJson, tagged?_object, hrecord]
  | checkpoint n =>
    have hrecord := Checkpoint.undoes n
    simp only [toJson] at hrecord
    simp [ofJson?, toJson, tagged?_object, hrecord]
  | milestone n =>
    have hrecord := PassThrough.undoes_milestone n
    simp only [toJson] at hrecord
    simp [ofJson?, toJson, tagged?_object, hrecord]
  | embellishment n =>
    have hrecord := PassThrough.undoes_embellishment n
    simp only [toJson] at hrecord
    simp [ofJson?, toJson, tagged?_object, hrecord]
  | terminal n =>
    have hrecord := Terminal.undoes n
    simp only [toJson] at hrecord
    simp [ofJson?, toJson, tagged?_object, hrecord]

/-- Whichever kind stands in front of the fields, the fields are read off the same value, and they
are written no deeper than those of a decision. -/
theorem keepsFinite : KeepsFinite (depth + 3) ofJson? toJson := by
  intro n j node hj hread
  obtain ⟨⟨kind, record⟩, htagged, hread⟩ := Option.bind_eq_some_iff.1 hread
  have hrecord := finite_of_tagged? hj htagged
  dsimp only at hread
  split at hread
  · obtain ⟨i, hi, rfl⟩ := Option.map_eq_some_iff.1 hread
    exact Instruction.keepsFinite _ _ _ hrecord hi
  · obtain ⟨d, hd, rfl⟩ := Option.map_eq_some_iff.1 hread
    exact Decision.keepsFinite _ _ _ hrecord hd
  · obtain ⟨c, hc, rfl⟩ := Option.map_eq_some_iff.1 hread
    exact Checkpoint.keepsFinite _ _ _ hrecord hc
  · obtain ⟨p, hp, rfl⟩ := Option.map_eq_some_iff.1 hread
    exact finite_object ⟨.text _, PassThrough.finite_fields hrecord hp⟩
  · obtain ⟨p, hp, rfl⟩ := Option.map_eq_some_iff.1 hread
    exact finite_object ⟨.text _, PassThrough.finite_fields hrecord hp⟩
  · obtain ⟨t, ht, rfl⟩ := Option.map_eq_some_iff.1 hread
    exact Terminal.keepsFinite _ _ _ hrecord ht
  · cases hread

end Node

/-! ### Definitions -/

/-- Variables are written as records of one field. -/
theorem Formula.undoes_variable : Undoes ofVariable? variableToJson := by
  intro f
  simp [ofVariable?, variableToJson, record?_object, Formula.undoes.required_cons]

/-- Variables are records of one text. -/
theorem Formula.keepsFinite_variable : KeepsFinite (depth + 1) ofVariable? variableToJson :=
  fun _ _ _ _ _ => finite_object (.text _)

namespace Definition

/-- **Reading undoes writing**, for every definition. Each field is found behind those in front of
it, whose names are all different, and is read as what it was written for. -/
theorem undoes : Undoes ofJson? toJson := by
  intro d
  simp [ofJson?, toJson, record?_object, required_cons_of_ne, optional_cons_of_ne,
    withDefault_cons_of_ne, undoes_text.required_cons, ProblemInput.undoes.required_cons,
    Node.undoes.table.required_cons, undoes_text.list.table.withDefault_cons,
    Formula.undoes_variable.table.withDefault_cons, Formula.undoes.table.withDefault_cons,
    GenerationHints.undoes.optional_cons GenerationHints.toJson_ne_null,
    DisplayTemplates.undoes.optional_cons DisplayTemplates.toJson_ne_null]

/-- **A definition that was read is written with finite numbers** and no deeper than six. The
samples of the problem are what lies deepest. -/
theorem keepsFinite : KeepsFinite (depth + 6) ofJson? toJson := by
  intro n j d hj hread
  simp only [ofJson?, Option.bind_eq_bind, Option.bind_eq_some_iff, Option.pure_def,
    Option.some.injEq] at hread
  obtain ⟨r, hr, id, -, title, -, problemInput, hproblemInput, entryNode, -, nodes, hnodes, edges,
    hedges, computed, hcomputed, generation, hgeneration, constraints, hconstraints, display,
    hdisplay, rfl⟩ := hread
  obtain ⟨m, hr⟩ := finite_of_record? hj hr
  exact finite_object ⟨.text _, .text _, ProblemInput.keepsFinite.required hr hproblemInput,
    .text _, Node.keepsFinite.table.required hr hnodes,
    keepsFinite_text.list.table.withDefault hr finite_ofTable_empty hedges,
    Formula.keepsFinite_variable.table.withDefault hr finite_ofTable_empty hcomputed,
    GenerationHints.keepsFinite.optional hr hgeneration,
    Formula.keepsFinite.table.withDefault hr finite_ofTable_empty hconstraints,
    DisplayTemplates.keepsFinite.optional hr hdisplay⟩

/-- **The format round-trips**: a definition that was read off a text is read again, and the same,
from what it is written as, provided that each finite number in it is read back from its own text.
There are no other numbers in it. -/
theorem parse?_render {text : String} {d : Definition} (h : parse? text = some d)
    (hnumbers : ∀ n ∈ d.toJson.numbers, n.IsFinite → n.ReadsBack) :
    ofJson? d.toJson = some d ∧ parse? (Json.render d.toJson) = some d := by
  obtain ⟨j, hparse, hread⟩ := Option.bind_eq_some_iff.1 h
  have hfinite : Finite 6 d.toJson := keepsFinite _ _ _ (Json.parse_within hparse) hread
  have hwithin : d.toJson.Within Json.Number.ReadsBack Json.maxDepth :=
    (hfinite.imp hnumbers).mono (by decide)
  have hrender : Json.parse (Json.render d.toJson) = some d.toJson := Json.parse_render hwithin
  refine ⟨undoes d, ?_⟩
  rw [parse?, hrender]
  exact undoes d

/-- A chart as an author writes it down: a node of each kind, and most of what may be left out is
left out. -/
def sample : Json := .object [
  ("id", .text "sum"),
  ("title", .text "Adding"),
  ("problemInput", .object [
    ("schema", .text "pair"),
    ("fields", .list [
      .object [("name", .text "a"), ("type", .text "integer"), ("min", .number (.integer 1)),
        ("max", .number (.real 9.5))],
      .object [("name", .text "b"), ("options", .list [.text "none", .null])]]),
    ("examples", .list [.object [("values", .object [("a", .object [
      ("whole", .number (.integer 1)), ("num", .number (.integer 1)),
      ("denom", .number (.integer 2))])])]])]),
  ("entryNode", .text "start"),
  ("nodes", .object [
    ("start", .object [("type", .text "instruction"),
      ("workingProblem", .object [("result", .text "a + b")])]),
    ("ask", .object [("type", .text "decision"),
      ("options", .list [.object [("label", .text "Big"), ("value", .text "big")]]),
      ("correctAnswer", .object [("value", .text "size")]), ("skipIf", .text "a == 1"),
      ("skipTo", .text "done")]),
    ("add", .object [("prompt", .text "a + b"), ("type", .text "checkpoint"),
      ("expected", .list [.text "a + b", .text "total"]), ("tolerance", .number (.real 0.5))]),
    ("half", .object [("type", .text "milestone")]),
    ("cheer", .object [("type", .text "embellishment"), ("content", .text "Well done")]),
    ("done", .object [("type", .text "terminal"), ("celebration", .bool true)])]),
  ("edges", .object [("start", .list [.text "ask"]), ("ask", .list [.text "add", .text "half"])]),
  ("variables", .object [("total", .object [("init", .text "a + b")])]),
  ("generation", .object [("preferred", .object [("a", .list [.number (.integer 2)])])]),
  ("constraints", .object [("small", .text "total < 12")])]

/-- The sample has a node of each kind and numbers of both spellings, integers and decimals. It is
written, read, written in full and read again. -/
theorem parse?_render_sample : ∃ d, parse? (Json.render sample) = some d ∧
    d.toJson.numbers = [.real 1, .real 9.5, .real 1, .real 1, .real 2, .real 0.5, .real 2] ∧
      ofJson? d.toJson = some d ∧ parse? (Json.render d.toJson) = some d := by
  have hnumbers : ∀ n ∈ sample.numbers, n.ReadsBack := by decide +kernel
  have hsample : sample.Within (fun _ => True) 6 := by simp [sample]
  have hparse : Json.parse (Json.render sample) = some sample :=
    Json.parse_render ((hsample.imp fun n hn _ => hnumbers n hn).mono (by decide))
  have hread : (ofJson? sample).map (fun d => d.toJson.numbers) =
      some [.real 1, .real 9.5, .real 1, .real 1, .real 2, .real 0.5, .real 2] := by
    decide +kernel
  obtain ⟨d, hd, hwritten⟩ := Option.map_eq_some_iff.1 hread
  have hd : parse? (Json.render sample) = some d := by
    rw [parse?, hparse]
    exact hd
  refine ⟨d, hd, hwritten, parse?_render hd fun n hn _ => ?_⟩
  have hback : ∀ n ∈ [Json.Number.real 1, .real 9.5, .real 1, .real 1, .real 2, .real 0.5, .real 2],
      n.ReadsBack := by
    decide +kernel
  rw [hwritten] at hn
  exact hback n hn

end Definition

end ProcedureChart
