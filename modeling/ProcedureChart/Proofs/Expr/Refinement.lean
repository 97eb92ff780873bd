import Mathlib.Logic.Basic
import ProcedureChart.Proofs.Expr.Agreement
import ProcedureChart.Proofs.Expr.Completeness
import ProcedureChart.Proofs.Expr.Soundness

/-!
# Sources and their trees

A source either derives a tree of the grammar, and then its value in every context is the value of
that tree; or it has a syntax fault, and then it has no value in any context: its error is the
fault, or the error of a complete part in front of it.
-/

namespace ProcedureChart.Expr

variable {c : Context} {source : String} {error : EvalError}

/-! ### Errors of trees -/

section Except

variable {α β ε : Type} {x : Except ε α} {e : ε}

theorem cases_of_bind_eq_error {f : α → Except ε β} (h : x.bind f = .error e) :
    x = .error e ∨ ∃ a, x = .ok a ∧ f a = .error e := by
  cases x with
  | error e' =>
    cases h
    exact .inl rfl
  | ok a => exact .inr ⟨a, rfl, h⟩

theorem eq_error_of_map {f : α → β} (h : x.map f = .error e) : x = .error e := by
  cases x with
  | error e' =>
    cases h
    rfl
  | ok a => cases h

end Except

theorem errorClass_of_readField {v : Value} {part : String} (h : readField v part = .error error) :
    error.errorClass ≠ .malformed := by
  rw [readField] at h
  split at h <;> cases h
  exact ErrorClass.noConfusion

theorem errorClass_of_callFunction {function : String} {args : List Value}
    (h : callFunction function args = .error error) : error.errorClass ≠ .malformed := by
  rw [callFunction] at h
  split at h
  · cases h
    exact ErrorClass.noConfusion
  · split at h <;> cases h
    exact ErrorClass.noConfusion

mutual

/-- The errors of a tree are errors of names, arities and fields. A syntax error has its place in a
fragment, and no tree has one. -/
theorem errorClass_of_eval : ∀ (e : Expr) {error : EvalError}, e.eval c = .error error →
    error.errorClass ≠ .malformed
  | .literal v, error, h => by
    rw [eval] at h
    cases h
  | .name s, error, h => by
    rw [eval] at h
    split at h <;> cases h
    exact ErrorClass.noConfusion
  | .state s, error, h => by
    rw [eval] at h
    split at h <;> cases h
    exact ErrorClass.noConfusion
  | .field e part, error, h => by
    rw [eval_field] at h
    obtain he | ⟨v, -, hfield⟩ := cases_of_bind_eq_error h
    · exact errorClass_of_eval e he
    · exact errorClass_of_readField hfield
  | .call function args, error, h => by
    rw [eval_call] at h
    obtain hargs | ⟨vs, -, hcall⟩ := cases_of_bind_eq_error h
    · exact errorClass_of_evalAll args hargs
    · exact errorClass_of_callFunction hcall
  | .negation e, error, h => by
    rw [eval_negation] at h
    exact errorClass_of_eval e (eq_error_of_map h)
  | .opposite e, error, h => by
    rw [eval_opposite] at h
    exact errorClass_of_eval e (eq_error_of_map h)
  | .binary op left right, error, h => by
    rw [eval_binary] at h
    obtain hleft | ⟨v, -, hright⟩ := cases_of_bind_eq_error h
    · exact errorClass_of_eval left hleft
    · split at hright
      · cases hright
      · exact errorClass_of_eval right (eq_error_of_map hright)
  | .conditional condition whenTrue whenFalse, error, h => by
    rw [eval_conditional] at h
    obtain hcondition | ⟨v, -, hbranch⟩ := cases_of_bind_eq_error h
    · exact errorClass_of_eval condition hcondition
    · split at hbranch
      · exact errorClass_of_eval whenTrue hbranch
      · exact errorClass_of_eval whenFalse hbranch

/-- The same for the arguments of a call. -/
theorem errorClass_of_evalAll : ∀ (args : List Expr) {error : EvalError},
    evalAll c args = .error error → error.errorClass ≠ .malformed
  | [], error, h => by
    rw [evalAll] at h
    cases h
  | e :: rest, error, h => by
    rw [evalAll_cons] at h
    obtain he | ⟨v, -, hrest⟩ := cases_of_bind_eq_error h
    · exact errorClass_of_eval e he
    · exact errorClass_of_evalAll rest (eq_error_of_map hrest)

end

/-! ### Errors of fragments -/

/-- A fragment comes to its fault, or one of its parts fails. -/
def Fragment.Accounted (c : Context) (fragment : Fragment) : Prop :=
  fragment.error c = .malformed fragment.syntaxError ∨
    ∃ part ∈ fragment.parts, part.eval c = .error (fragment.error c)

/-- The first part of a fragment fails, or evaluation gets behind it. Then the error is that of the
rest, unless the first part settles that only the fault counts. -/
theorem Fragment.Accounted.behind {fragment rest : Fragment} {first : Expr}
    (hrest : rest.Accounted c)
    (herror : fragment.syntaxError = rest.syntaxError)
    (hfirst : first ∈ fragment.parts) (hparts : ∀ part ∈ rest.parts, part ∈ fragment.parts)
    (hfails : ∀ error, first.eval c = .error error → fragment.error c = error)
    (hgets : ∀ v, first.eval c = .ok v →
      fragment.error c = rest.error c ∨ fragment.error c = .malformed rest.syntaxError ∨
        ∃ part ∈ fragment.parts, part.eval c = .error (fragment.error c)) :
    fragment.Accounted c := by
  cases h : first.eval c with
  | error error => exact .inr ⟨first, hfirst, by rw [h, hfails error h]⟩
  | ok v =>
    obtain heq | heq | hpart := hgets v h
    · -- evaluation gets behind the first part
      obtain hfault | ⟨part, hpart, heval⟩ := hrest
      · exact .inl (by rw [heq, hfault, herror])
      · exact .inr ⟨part, hparts part hpart, by rw [heq, heval]⟩
    · exact .inl (by rw [heq, herror])
    · exact .inr hpart

/-- The error of a fragment is its fault, or the error of one of its parts, for every context. Each
kind of fragment has one part more than the one inside, and what that part decides is the only
difference. -/
theorem Fragment.accounted (c : Context) (fragment : Fragment) : fragment.Accounted c := by
  induction fragment with
  | fault error => exact .inl rfl
  | after e rest ih =>
    refine ih.behind rfl List.mem_cons_self (fun _ => List.mem_cons_of_mem _) ?_ ?_
    · intro error h
      rw [Fragment.error, h]
    · intro v h
      rw [Fragment.error, h]
      exact .inl rfl
  | rightOf op left rest ih =>
    refine ih.behind rfl List.mem_cons_self (fun _ => List.mem_cons_of_mem _) ?_ ?_
    · intro error h
      rw [Fragment.error, h]
    · intro v h
      rw [Fragment.error, h]
      dsimp only
      split
      · exact .inr (.inl rfl)
      · exact .inl rfl
  | whenTrueOf condition rest ih =>
    refine ih.behind rfl List.mem_cons_self (fun _ => List.mem_cons_of_mem _) ?_ ?_
    · intro error h
      rw [Fragment.error, h]
    · intro v h
      rw [Fragment.error, h]
      dsimp only
      split
      · exact .inl rfl
      · exact .inr (.inl rfl)
  | whenFalseOf condition whenTrue rest ih =>
    refine ih.behind rfl List.mem_cons_self
      (fun _ h => List.mem_cons_of_mem _ (List.mem_cons_of_mem _ h)) ?_ ?_
    · intro error h
      rw [Fragment.error, h]
    · intro v h
      rw [Fragment.error, h]
      dsimp only
      split
      · -- the first branch is taken; the fault stands behind it
        split
        · next error htrue =>
          exact .inr (.inr ⟨whenTrue, List.mem_cons_of_mem _ List.mem_cons_self, htrue⟩)
        · exact .inr (.inl rfl)
      · exact .inl rfl

/-! ### Sources -/

/-- The tokens of a source derive a tree. -/
def Derives (source : String) (e : Expr) : Prop :=
  ∃ ts, tokenize source = .ok ts ∧ Phrase .conditional (ts.map Lexeme.token) e

/-- An expression is the tree of tokens next to each other in a source, the last of which ends
before the lexeme that begins at a position, or before the end of the source if that is the
position. -/
def StandsBefore (source : String) (position : Nat) (e : Expr) : Prop :=
  ∃ reached rest, tokenize source = .ok (reached ++ rest) ∧ Within reached e ∧
    position = nextPosition source.utf8ByteSize rest

/-- In every context the error of a source is its syntax fault, or an error of another class that
a part in front of the fault has. -/
def FailsAt (source : String) (fault : SyntaxError) : Prop :=
  ∀ c, evaluate source c = .error (.malformed fault) ∨
    ∃ error part, evaluate source c = .error error ∧ error.errorClass ≠ .malformed ∧
      part.eval c = .error error ∧ StandsBefore source fault.position part

/-- A source that derives a tree is read as that tree. -/
theorem read_of_derives {e : Expr} (h : Derives source e) : read source = .ok e := by
  obtain ⟨ts, htokens, hphrase⟩ := h
  rw [read, htokens]
  exact parse_complete hphrase

/-- A source is read as a tree that it derives. -/
theorem derives_of_read {e : Expr} (h : read source = .ok e) : Derives source e := by
  rw [read] at h
  split at h
  · cases h
  · next ts htokens =>
    by_cases hts : ts = []
    · subst hts
      cases h
    · have hsound := parse_sound source.utf8ByteSize ts hts
      rw [h] at hsound
      exact ⟨ts, htokens, hsound⟩

/-- The parts of a fragment stand in front of its fault. They were read from tokens, and the fault
is at the first token that does not continue them. -/
theorem standsBefore_of_read {fragment : Fragment} (h : read source = .error fragment) :
    ∀ part ∈ fragment.parts, StandsBefore source fragment.syntaxError.position part := by
  rw [read] at h
  split at h
  · cases h
    exact fun part hpart => absurd hpart List.not_mem_nil
  · next ts htokens =>
    by_cases hts : ts = []
    · subst hts
      cases h
      exact fun part hpart => absurd hpart List.not_mem_nil
    · have hsound := parse_sound source.utf8ByteSize ts hts
      rw [h] at hsound
      obtain ⟨reached, rest, heq, hposition, hparts⟩ := hsound
      intro part hpart
      exact ⟨reached, rest, by rw [htokens, heq], hparts part hpart, hposition⟩

theorem failsAt_of_read {fragment : Fragment} (h : read source = .error fragment) :
    FailsAt source fragment.syntaxError := by
  intro c
  have hevaluate : evaluate source c = .error (fragment.error c) := by
    rw [evaluate, h, run]
  obtain hfault | ⟨part, hpart, heval⟩ := fragment.accounted c
  · rw [hevaluate, hfault]
    exact .inl rfl
  · exact .inr ⟨fragment.error c, part, hevaluate, errorClass_of_eval part heval, heval,
      standsBefore_of_read h part hpart⟩

/-- **Refinement**: evaluating a source in one pass is the same as reading it first and evaluating
what it reads as. Either the source derives a tree, exactly one, and has the value or the error of
that tree in every context; or it derives none, and there is one syntax fault that it fails at in
every context. -/
theorem evaluate_refines_grammar (source : String) :
    (∀ c, evaluateInOnePass source c = evaluate source c) ∧
      Xor
        (∃ e, Derives source e ∧ (∀ e', Derives source e' → e' = e) ∧
          ∀ c, evaluate source c = e.eval c)
        ((∀ e, ¬ Derives source e) ∧ ∃ fault, FailsAt source fault) := by
  refine ⟨evaluateInOnePass_eq source, ?_⟩
  cases h : read source with
  | ok e =>
    have hderives := derives_of_read h
    refine .inl ⟨⟨e, hderives, ?_, ?_⟩, fun hnot => hnot.1 e hderives⟩
    · intro e' he'
      have hread := read_of_derives he'
      rw [h] at hread
      cases hread
      rfl
    · intro c
      rw [evaluate, h, run]
  | error fragment =>
    have hnone : ∀ e, ¬ Derives source e := by
      intro e he
      have hread := read_of_derives he
      rw [h] at hread
      cases hread
    refine .inr ⟨⟨hnone, fragment.syntaxError, failsAt_of_read h⟩, ?_⟩
    rintro ⟨e, he, -⟩
    exact hnone e he

end ProcedureChart.Expr
