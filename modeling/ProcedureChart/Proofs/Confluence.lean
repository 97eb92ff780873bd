import ProcedureChart.Proofs.Expr.Stability
import ProcedureChart.Proofs.FixedPoint
import ProcedureChart.Proofs.Loop

/-!
# Resolutions end, in any order

A resolution passes over its entries until none is left or a pass leaves all of them; nothing else
bounds the number of passes. Whatever the evaluation does, the passes end, and they end with the
resolution (`resolve_ends`), because a pass that does not end it settles an entry. Where results
stay while the scope grows (`Persistent`), the scope a resolution comes to is a fixed point and the
same for every order of the entries, and no order fails where another one succeeds
(`resolve_confluent`).
-/

namespace ProcedureChart.FixedPoint

variable {ε : Type} {eval : ε → Scope → Except Expr.EvalError Value}
  {entries pending : List (String × ε)} {base scope : Scope}

/-! ### The passes as a loop -/

/-- One turn of a resolution: a pass over the entries that are still pending. -/
def passTurn (eval : ε → Scope → Except Expr.EvalError Value)
    (state : List (String × ε) × Scope) :
    Except Expr.EvalError Scope ⊕ List (String × ε) × Scope :=
  match state with
  | ([], scope) => .inl (.ok scope)
  | (pending, scope) =>
    match pass eval pending ⟨scope, [], none⟩ with
    | .error error => .inl (.error error)
    | .ok p =>
      match (if p.waiting.length = pending.length then p.error else none) with
      | some error => .inl (.error error)
      | none => .inr (p.waiting.reverse, p.scope)

/-- A pass adds no more entries to those that wait than it goes over. It adds none at all when no
entry fails, since only an entry that fails is put off. -/
theorem waiting_of_pass {p q : Pass ε} (h : pass eval pending p = .ok q) :
    q.waiting.length ≤ p.waiting.length + pending.length ∧
      (q.error = none → p.error = none ∧ q.waiting = p.waiting) := by
  induction pending generalizing p with
  | nil =>
    cases h
    exact ⟨Nat.le_refl _, fun herror => ⟨herror, rfl⟩⟩
  | cons entry rest ih =>
    obtain ⟨name, formula⟩ := entry
    rw [pass] at h
    split at h
    · obtain ⟨hlength, hclean⟩ := ih h
      exact ⟨Nat.le_succ_of_le hlength, hclean⟩
    · split at h
      · obtain ⟨hlength, hclean⟩ := ih h
        simp only [List.length_cons] at hlength ⊢
        refine ⟨by omega, fun herror => ?_⟩
        cases (hclean herror).1
      · cases h

/-- With as many passes left as there are entries, a resolution ends like the loop. A pass that is
not the last one leaves fewer entries than it found, so the bound on the passes is never what stops
it. -/
theorem resolveIn_ends {passes : Nat} (hpasses : pending.length ≤ passes) :
    Loop.Ends (passTurn eval) (pending, scope) (resolveIn eval passes pending scope) := by
  induction passes generalizing pending scope with
  | zero =>
    obtain rfl := List.length_eq_zero_iff.1 (Nat.le_zero.1 hpasses)
    exact .here rfl
  | succ passes ih =>
    cases pending with
    | nil => exact .here rfl
    | cons entry rest =>
      cases hpass : pass eval (entry :: rest) ⟨scope, [], none⟩ with
      | error error =>
        apply Loop.Ends.here
        simp only [passTurn, resolveIn, hpass]
      | ok p =>
        obtain ⟨hlength, hclean⟩ := waiting_of_pass hpass
        cases herror : p.error with
        | none =>
          -- nothing waits, and the next turn is the last one
          obtain ⟨-, hwaiting⟩ := hclean herror
          have hturn : passTurn eval (entry :: rest, scope) = .inr ([], p.scope) := by
            simp only [passTurn, hpass, herror, hwaiting, ite_self, List.reverse_nil]
          refine .after hturn ?_
          simp only [resolveIn, hpass, herror]
          exact .here rfl
        | some error =>
          by_cases hstuck : p.waiting.length = (entry :: rest).length
          · apply Loop.Ends.here
            simp only [passTurn, resolveIn, hpass, herror, hstuck, if_true]
          · have hturn : passTurn eval (entry :: rest, scope) =
                .inr (p.waiting.reverse, p.scope) := by
              simp only [passTurn, hpass, hstuck, if_false]
            refine .after hturn ?_
            simp only [resolveIn, hpass, herror, hstuck, if_false]
            apply ih
            simp only [List.length_reverse, List.length_nil, List.length_cons] at hlength hstuck hpasses ⊢
            omega

/-- **A resolution ends**: its passes, as many as it takes, end with what it resolves to. Every pass
but the last one resolves an entry at least, so there are no more of them than entries, and the
bound that `resolve` puts on them cuts nothing short. -/
theorem resolve_ends (eval : ε → Scope → Except Expr.EvalError Value)
    (entries : List (String × ε)) (base : Scope) :
    Loop.Ends (passTurn eval) (entries, base) (resolve eval entries base) :=
  resolveIn_ends (Nat.le_refl _)

/-! ### Results that stay -/

/-- Whether the results of an evaluation stay when the scope gains further names, errors about names
aside. -/
def Persistent (eval : ε → Scope → Except Expr.EvalError Value) : Prop :=
  ∀ formula {scope other : Scope}, scope.PartOf other →
    eval formula other = eval formula scope ∨
      ∃ error, eval formula scope = .error error ∧ error.errorClass = .name

theorem Persistent.steady (h : Persistent eval) (hnodup : (entries.map Prod.fst).Nodup)
    (hfresh : ∀ entry ∈ entries, base.get? entry.1 = none) : Steady eval entries base where
  nodup := hnodup
  fresh := hfresh
  stays entry _ _ _ _ _ hpart := h entry.2 hpart

/-- Formulas over a problem alone are persistent. -/
theorem persistent_eval : Persistent fun (f : Formula) problem => f.eval { problem } := by
  intro f scope other hpart
  have hkeeps : Context.Keeps { problem := scope } { problem := other } f.names := by
    constructor
    · intro name _ v hv
      simp only [Context.lookup, ite_self, Table.get?_empty, Option.or_none] at hv ⊢
      exact hpart name v hv
    · intro name v hv
      exact hv
  rcases Formula.eval_refines hkeeps with heq | ⟨error, herror, hunbound⟩
  · exact .inl heq
  · exact .inr ⟨error, herror, Expr.EvalError.errorClass_of_isUnbound hunbound⟩

/-! ### Confluence -/

/-- **Resolving is complete and order-free** where the results of the evaluation are persistent and
the entries have names of their own that are new to the scope. The passes end. If one order of the
entries succeeds, every order does and comes to the same scope: it keeps what was there, gives each
entry the value that its formula has in the end, and holds no other names. -/
theorem resolve_confluent (heval : Persistent eval) (hnodup : (entries.map Prod.fst).Nodup)
    (hfresh : ∀ entry ∈ entries, base.get? entry.1 = none) :
    (∀ result, Loop.Ends (passTurn eval) (entries, base) result ↔
      resolve eval entries base = result) ∧
    ∀ order, order.Perm entries →
      ((∃ resolved, resolve eval order base = .ok resolved) ↔
        ∃ resolved, resolve eval entries base = .ok resolved) ∧
      ∀ resolved, resolve eval entries base = .ok resolved →
        resolve eval order base = .ok resolved ∧
        base.PartOf resolved ∧
        (∀ entry ∈ entries, ∃ v, resolved.get? entry.1 = some v ∧ eval entry.2 resolved = .ok v) ∧
        ∀ name, (∀ entry ∈ entries, entry.1 ≠ name) → resolved.get? name = base.get? name := by
  have hsteady := heval.steady hnodup hfresh
  refine ⟨fun result => (resolve_ends eval entries base).iff_eq, fun order horder => ⟨?_, ?_⟩⟩
  · constructor
    · rintro ⟨resolved, hresolved⟩
      exact ⟨resolved, resolve_of_perm (hsteady.of_perm horder) hresolved horder.symm⟩
    · rintro ⟨resolved, hresolved⟩
      exact ⟨resolved, resolve_of_perm hsteady hresolved horder⟩
  · intro resolved hresolved
    obtain ⟨hgrown, -⟩ := complete_of_resolve hsteady hresolved
    refine ⟨resolve_of_perm hsteady hresolved horder, hgrown.base_partOf, ?_, ?_⟩
    · intro entry hentry
      exact get?_of_resolve hsteady hresolved hentry
    · intro name hname
      exact get?_of_resolveIn hresolved hname

/-- Two formulas, the first of which mentions the name of the second. -/
def chainedFormulas : List (String × Formula) :=
  [("c", .ofSource "b * 10"), ("b", .ofSource "a + 1")]

/-- The first formula waits for a pass, and the other order needs one pass only. Both end with the
same values. -/
theorem resolve_confluent_chained :
    let eval := fun (f : Formula) problem => f.eval { problem }
    let base : Scope := .ofList [("a", .number 2)]
    let resolved : Scope := .ofList [("a", .number 2), ("b", .number 3), ("c", .number 30)]
    Persistent eval ∧ (chainedFormulas.map Prod.fst).Nodup ∧
      (∀ entry ∈ chainedFormulas, base.get? entry.1 = none) ∧
      resolve eval chainedFormulas base = .ok resolved ∧
      resolve eval chainedFormulas.reverse base = .ok resolved ∧
      Loop.Ends (passTurn eval) (chainedFormulas, base) (.ok resolved) := by
  intro eval base resolved
  have hnodup : (chainedFormulas.map Prod.fst).Nodup := by decide
  have hfresh : ∀ entry ∈ chainedFormulas, base.get? entry.1 = none := by decide +kernel
  have hresolve : resolve eval chainedFormulas base = .ok resolved := by decide +kernel
  obtain ⟨hends, horders⟩ := resolve_confluent persistent_eval hnodup hfresh
  obtain ⟨-, horder⟩ := horders _ (List.reverse_perm _)
  exact ⟨persistent_eval, hnodup, hfresh, hresolve, (horder _ hresolve).1, (hends _).2 hresolve⟩

end ProcedureChart.FixedPoint
