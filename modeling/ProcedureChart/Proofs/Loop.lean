import Mathlib.Logic.Relation

/-!
# Loops

A loop turns its state into the next one until it ends with a result; nothing bounds the number of
its turns. The recursions of this library carry a number that bounds theirs. To say that such a
number cuts nothing short is to say that the loop without it ends with the same result
(`Loop.Ends`), and what is said of all states that a loop comes to (`Loop.Reaches`) holds at each
of its turns. A loop that need not end has a result only where it does (`Loop.result?`).
-/

namespace ProcedureChart.Loop

variable {σ ρ : Type} {turn : σ → ρ ⊕ σ} {s t : σ} {result other : ρ}

/-- A loop comes from one state to another, in any number of turns. -/
def Reaches (turn : σ → ρ ⊕ σ) : σ → σ → Prop := Relation.ReflTransGen fun s t => turn s = .inr t

/-- A loop ends with a result after finitely many turns. -/
def Ends (turn : σ → ρ ⊕ σ) (s : σ) (result : ρ) : Prop :=
  ∃ t, Reaches turn s t ∧ turn t = .inl result

theorem Ends.here (h : turn s = .inl result) : Ends turn s result := ⟨s, .refl, h⟩

theorem Ends.after (h : turn s = .inr t) (hends : Ends turn t result) : Ends turn s result := by
  obtain ⟨last, hreaches, hlast⟩ := hends
  exact ⟨last, .head h hreaches, hlast⟩

/-- A loop that ends is followed from its end: what holds where a turn ends it, and before a turn
if it holds behind it, holds at the start. -/
@[elab_as_elim]
theorem Ends.induct {motive : ∀ s, Ends turn s result → Prop} (h : Ends turn s result)
    (here : ∀ {s} (hturn : turn s = .inl result), motive s (.here hturn))
    (after : ∀ {s t} (hturn : turn s = .inr t) (hends : Ends turn t result), motive t hends →
      motive s (.after hturn hends)) : motive s h := by
  obtain ⟨last, hreaches, hlast⟩ := h
  induction hreaches using Relation.ReflTransGen.head_induction_on with
  | refl => exact here hlast
  | head hturn hreaches ih => exact after hturn ⟨last, hreaches, hlast⟩ ih

/-- What holds at the start of a loop and is kept by its turns holds in every state it comes to. -/
theorem Reaches.preserves {P : σ → Prop} (h : Reaches turn s t) (hstart : P s)
    (hturn : ∀ {s t}, P s → turn s = .inr t → P t) : P t := by
  induction h with
  | refl => exact hstart
  | tail _ hnext ih => exact hturn ih hnext

/-- A loop comes to nothing behind a state in which it ends. -/
theorem Reaches.eq_of_ended (h : Reaches turn s t) (hended : turn s = .inl result) : t = s := by
  rcases Relation.ReflTransGen.cases_head h with heq | ⟨next, hnext, -⟩
  · exact heq.symm
  · rw [hended] at hnext
    cases hnext

/-- A loop ends with one result only. -/
theorem Ends.unique (h : Ends turn s result) (hother : Ends turn s other) : result = other := by
  obtain ⟨t, ht, hresult⟩ := h
  obtain ⟨t', ht', hother⟩ := hother
  have hright : Relator.RightUnique fun s t => turn s = .inr t := by
    intro a b c hb hc
    exact Sum.inr.inj (hb.symm.trans hc)
  have heq : t = t' := by
    rcases Relation.ReflTransGen.total_of_right_unique hright ht ht' with h | h
    · exact (Reaches.eq_of_ended h hresult).symm
    · exact Reaches.eq_of_ended h hother
  rw [heq, hother] at hresult
  exact (Sum.inl.inj hresult).symm

/-- The results of a loop are the one that it ends with. -/
theorem Ends.iff_eq (h : Ends turn s result) : Ends turn s other ↔ result = other :=
  ⟨h.unique, fun heq => heq ▸ h⟩

/-- A loop that goes on has the results that it has from there on. -/
theorem Ends.iff_of_turn (h : turn s = .inr t) : Ends turn s result ↔ Ends turn t result := by
  refine ⟨fun hends => ?_, .after h⟩
  induction hends using Ends.induct with
  | here hturn =>
    rw [h] at hturn
    cases hturn
  | after hturn hends =>
    rw [h] at hturn
    cases hturn
    exact hends

/-! ### Loops that may go on forever -/

open Classical in
/-- What a loop comes back with: its result if it ends, and nothing if it goes on forever. Whether
it ends cannot be computed in general. -/
noncomputable def result? (turn : σ → ρ ⊕ σ) (s : σ) : Option ρ :=
  if h : ∃ result, Ends turn s result then some h.choose else none

theorem result?_eq_some_iff : result? turn s = some result ↔ Ends turn s result := by
  rw [result?]
  split
  · next h =>
    rw [Option.some.injEq]
    exact (h.choose_spec.iff_eq).symm
  · next h =>
    constructor
    · intro hnone
      cases hnone
    · exact fun hends => absurd ⟨result, hends⟩ h

/-- A loop comes back with what its first turn ends it with, or else with what comes of the state
that it goes on to. -/
theorem result?_eq (turn : σ → ρ ⊕ σ) (s : σ) :
    result? turn s = match turn s with
      | .inl result => some result
      | .inr t => result? turn t := by
  cases hturn : turn s with
  | inl result => exact result?_eq_some_iff.2 (.here hturn)
  | inr t =>
    refine Option.ext fun result => ?_
    rw [result?_eq_some_iff, result?_eq_some_iff, Ends.iff_of_turn hturn]

end ProcedureChart.Loop
