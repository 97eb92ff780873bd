import Mathlib.Data.List.Nodup
import Mathlib.Data.List.Perm.Basic
import ProcedureChart.Generate.FixedPoint
import ProcedureChart.Proofs.Tables

/-!
# Resolving named formulas is a fixed point

A resolution enters one value after the other, each that of a formula in the scope so far (`Grown`).
If the values of formulas stay while the scope grows (`Steady`), then whatever has been entered is
still the value of its formula in the end, and no two ways to go on can miss each other: a grown
scope that no further formula can add to contains every other grown scope (`Grown.partOf`). So a
resolution that succeeds comes to a fixed point (`get?_of_resolve`), the same one for every order of
the entries (`resolve_of_perm`).
-/

namespace ProcedureChart

namespace FixedPoint

variable {ε : Type} {eval : ε → Scope → Except Expr.EvalError Value}
  {entries entries' pending waits : List (String × ε)} {base scope other : Scope} {name : String}

/-! ### What is left alone -/

/-- What waits after a pass are entries of it, or waited before. So nothing new is ever to be
resolved. -/
theorem mem_of_mem_waiting {p q : Pass ε} (h : pass eval entries p = .ok q) :
    ∀ entry ∈ q.waiting, entry ∈ p.waiting ∨ entry ∈ entries := by
  induction entries generalizing p with
  | nil =>
    cases h
    exact fun entry hentry => .inl hentry
  | cons entry entries ih =>
    rw [pass] at h
    split at h
    · exact fun entry hentry => (ih h entry hentry).imp_right (List.mem_cons_of_mem _)
    · split at h
      · -- the entry has to wait
        intro waits hwaits
        rcases ih h waits hwaits with hwaits | hwaits
        · rcases List.mem_cons.1 hwaits with rfl | hwaits
          · exact .inr List.mem_cons_self
          · exact .inl hwaits
        · exact .inr (List.mem_cons_of_mem _ hwaits)
      · cases h

/-- A pass changes no value but those of its entries, since it inserts under their names only. -/
theorem get?_of_pass {p q : Pass ε} (h : pass eval entries p = .ok q)
    (hname : ∀ entry ∈ entries, entry.1 ≠ name) : q.scope.get? name = p.scope.get? name := by
  induction entries generalizing p with
  | nil =>
    cases h
    rfl
  | cons entry entries ih =>
    obtain ⟨hother, hrest⟩ := List.forall_mem_cons.1 hname
    rw [pass] at h
    split at h
    · rw [ih h hrest, Table.get?_insert, if_neg hother.symm]
    · split at h
      · have hget := ih h hrest
        exact hget
      · cases h

/-- Resolving entries changes no other value, however many passes it takes. -/
theorem get?_of_resolveIn {passes : Nat} {resolved : Scope}
    (h : resolveIn eval passes entries scope = .ok resolved)
    (hname : ∀ entry ∈ entries, entry.1 ≠ name) : resolved.get? name = scope.get? name := by
  induction passes generalizing entries scope with
  | zero => cases entries <;> cases h <;> rfl
  | succ passes ih =>
    cases entries with
    | nil =>
      cases h
      rfl
    | cons entry entries =>
      simp only [resolveIn] at h
      split at h
      · cases h
      · next p hp =>
        have hget := get?_of_pass hp hname
        split at h
        · split at h
          · cases h
          · refine (ih h fun entry hentry => ?_).trans hget
            exact hname entry ((mem_of_mem_waiting hp entry (List.mem_reverse.1 hentry)).resolve_left
              List.not_mem_nil)
        · cases h
          exact hget

/-! ### Growing scopes -/

/-- The scopes that come of entering values of formulas, one after the other. -/
inductive Grown (eval : ε → Scope → Except Expr.EvalError Value) (entries : List (String × ε))
    (base : Scope) : Scope → Prop
  | base : Grown eval entries base base
  | enter {scope : Scope} {entry : String × ε} {v : Value} : Grown eval entries base scope →
      entry ∈ entries → scope.get? entry.1 = none → eval entry.2 scope = .ok v →
      Grown eval entries base (scope.insert entry.1 v)

/-- Entries with names of their own, whose results stay while the scope grows, unless they wait for
a name. -/
structure Steady (eval : ε → Scope → Except Expr.EvalError Value)
    (entries : List (String × ε)) (base : Scope) : Prop where
  nodup : (entries.map Prod.fst).Nodup
  fresh : ∀ entry ∈ entries, base.get? entry.1 = none
  stays : ∀ entry ∈ entries, ∀ {scope other : Scope}, Grown eval entries base scope →
    Grown eval entries base other → scope.PartOf other →
    eval entry.2 other = eval entry.2 scope ∨
      ∃ error, eval entry.2 scope = .error error ∧ error.errorClass = .name

/-- Every entry has a value in a scope. -/
def Complete (entries : List (String × ε)) (scope : Scope) : Prop :=
  ∀ entry ∈ entries, (scope.get? entry.1).isSome

/-- Every entry whose formula has a value in a scope has one there. -/
def Closed (eval : ε → Scope → Except Expr.EvalError Value) (entries : List (String × ε))
    (scope : Scope) : Prop :=
  ∀ entry ∈ entries, ∀ v, eval entry.2 scope = .ok v → (scope.get? entry.1).isSome

theorem Complete.closed (h : Complete entries scope) : Closed eval entries scope :=
  fun entry hentry _ _ => h entry hentry

namespace Grown

theorem base_partOf (h : Grown eval entries base scope) : base.PartOf scope := by
  induction h with
  | base => exact .refl _
  | enter _ _ hnone _ ih => exact ih.trans (.insert_of_none hnone)

/-- Only entries get values. -/
theorem get?_eq_or_mem (h : Grown eval entries base scope) (name : String) :
    scope.get? name = base.get? name ∨ ∃ entry ∈ entries, entry.1 = name := by
  induction h with
  | base => exact .inl rfl
  | @enter scope entry v _ hentry _ _ ih =>
    rw [Table.get?_insert]
    split
    · next heq => exact .inr ⟨entry, hentry, heq.symm⟩
    · exact ih

/-- The order of the entries does not matter to what can be entered. -/
theorem of_subset (h : Grown eval entries base scope) (hsub : entries ⊆ entries') :
    Grown eval entries' base scope := by
  induction h with
  | base => exact .base
  | enter _ hentry hnone hv ih => exact ih.enter (hsub hentry) hnone hv

/-- What has been entered is the value of its formula. It was so when the value was entered, and
what was entered later has not changed it, because the formulas are steady. -/
theorem eval_of_get? (h : Grown eval entries base scope) (hsteady : Steady eval entries base)
    {entry : String × ε} (hentry : entry ∈ entries) {v : Value}
    (hv : scope.get? entry.1 = some v) : eval entry.2 scope = .ok v := by
  induction h with
  | base =>
    rw [hsteady.fresh entry hentry] at hv
    cases hv
  | @enter scope new w hgrown hnew hnone hw ih =>
    have hpart : scope.PartOf (scope.insert new.1 w) := .insert_of_none hnone
    have hafter : Grown eval entries base (scope.insert new.1 w) := hgrown.enter hnew hnone hw
    rw [Table.get?_insert] at hv
    have hbefore : eval entry.2 scope = .ok v := by
      split at hv
      · next heq =>
        -- the value just entered
        obtain rfl := List.inj_on_of_nodup_map hsteady.nodup hentry hnew heq
        cases hv
        exact hw
      · exact ih hv
    obtain heq | ⟨error, herror, -⟩ := hsteady.stays entry hentry hgrown hafter hpart
    · exact heq.trans hbefore
    · rw [herror] at hbefore
      cases hbefore

/-- **No two ways miss each other**: a grown scope that no formula can add to contains every grown
scope. The induction is on the way of the other one: each value that it takes in is what its formula
has in the larger scope as well. -/
theorem partOf (h : Grown eval entries base scope) (hsteady : Steady eval entries base)
    (hother : Grown eval entries base other) (hclosed : Closed eval entries other) :
    scope.PartOf other := by
  induction h with
  | base => exact hother.base_partOf
  | @enter scope entry v hgrown hentry _ hv ih =>
    obtain heq | ⟨error, herror, -⟩ := hsteady.stays entry hentry hgrown hother ih
    · rw [hv] at heq
      obtain ⟨w, hw⟩ := Option.isSome_iff_exists.1 (hclosed entry hentry v heq)
      have hsame := hother.eval_of_get? hsteady hentry hw
      rw [heq] at hsame
      cases hsame
      exact ih.insert hw
    · rw [herror] at hv
      cases hv

end Grown

/-! ### Passes -/

/-- The entries still to be resolved in a grown scope. -/
structure Pending (eval : ε → Scope → Except Expr.EvalError Value)
    (entries : List (String × ε)) (base : Scope) (pending : List (String × ε)) (scope : Scope) :
    Prop where
  grown : Grown eval entries base scope
  subset : pending ⊆ entries
  nodup : (pending.map Prod.fst).Nodup
  fresh : ∀ entry ∈ pending, scope.get? entry.1 = none

/-- What a pass over pending entries has done, and the entries that it made wait. -/
structure Passed (eval : ε → Scope → Except Expr.EvalError Value)
    (entries : List (String × ε)) (base : Scope) (pending : List (String × ε)) (p q : Pass ε)
    (waits : List (String × ε)) : Prop where
  waiting : q.waiting = waits.reverse ++ p.waiting
  sublist : waits.Sublist pending
  left : Pending eval entries base waits q.scope
  part : p.scope.PartOf q.scope
  settled : ∀ entry ∈ pending, entry ∈ waits ∨ (q.scope.get? entry.1).isSome
  clean : q.error = none → p.error = none ∧ waits = []
  stuck : waits = pending → q.scope = p.scope ∧
    ∀ entry ∈ pending, ∀ v, eval entry.2 p.scope ≠ .ok v

theorem Pending.enter {entry : String × ε} {v : Value}
    (h : Pending eval entries base (entry :: pending) scope) (hv : eval entry.2 scope = .ok v) :
    Pending eval entries base pending (scope.insert entry.1 v) := by
  obtain ⟨hname, hnodup⟩ := List.nodup_cons.1 h.nodup
  obtain ⟨hentry, hsub⟩ := List.cons_subset.1 h.subset
  refine ⟨h.grown.enter hentry (h.fresh entry List.mem_cons_self) hv, hsub, hnodup,
    fun other hother => ?_⟩
  have hne : other.1 ≠ entry.1 := fun heq => hname (heq ▸ List.mem_map_of_mem hother)
  rw [Table.get?_insert, if_neg hne]
  exact h.fresh other (List.mem_cons_of_mem _ hother)

theorem Pending.tail {entry : String × ε}
    (h : Pending eval entries base (entry :: pending) scope) :
    Pending eval entries base pending scope :=
  ⟨h.grown, (List.cons_subset.1 h.subset).2, (List.nodup_cons.1 h.nodup).2,
    fun other hother => h.fresh other (List.mem_cons_of_mem _ hother)⟩

/-- The first entry gets its value, and the pass goes over the others with it. -/
theorem Passed.of_ok {entry : String × ε} {v : Value} {p q : Pass ε}
    (h : Passed eval entries base pending { p with scope := p.scope.insert entry.1 v } q waits)
    (hnone : p.scope.get? entry.1 = none) :
    Passed eval entries base (entry :: pending) p q waits where
  waiting := h.waiting
  sublist := h.sublist.cons _
  left := h.left
  part := (Table.PartOf.insert_of_none hnone).trans h.part
  settled := by
    refine List.forall_mem_cons.2 ⟨.inr (h.part.isSome ?_), h.settled⟩
    rw [Table.get?_insert, if_pos rfl]
    rfl
  clean := h.clean
  stuck := by
    rintro rfl
    exact absurd h.sublist.length_le (Nat.not_succ_le_self _)

/-- The first entry has to wait. It still has no value after the pass, since no other entry has its
name. -/
theorem Passed.of_error {entry : String × ε} {p q : Pass ε} {error : Expr.EvalError}
    (h : Passed eval entries base pending
      { p with waiting := entry :: p.waiting, error := some error } q waits)
    (hpending : Pending eval entries base (entry :: pending) p.scope)
    (hnone : q.scope.get? entry.1 = none) (herror : eval entry.2 p.scope = .error error) :
    Passed eval entries base (entry :: pending) p q (entry :: waits) where
  waiting := by rw [h.waiting, List.reverse_cons, List.append_assoc]; rfl
  sublist := h.sublist.cons_cons _
  left := by
    obtain ⟨hname, -⟩ := List.nodup_cons.1 hpending.nodup
    refine ⟨h.left.grown, ?_, List.nodup_cons.2 ⟨fun hmem => hname ?_, h.left.nodup⟩, ?_⟩
    · exact List.cons_subset.2 ⟨hpending.subset List.mem_cons_self, h.left.subset⟩
    · exact (h.sublist.map Prod.fst).subset hmem
    · exact List.forall_mem_cons.2 ⟨hnone, h.left.fresh⟩
  part := h.part
  settled := by
    refine List.forall_mem_cons.2 ⟨.inl List.mem_cons_self, fun other hother => ?_⟩
    exact (h.settled other hother).imp_left (List.mem_cons_of_mem _)
  clean hclean := by cases (h.clean hclean).1
  stuck heq := by
    obtain ⟨hscope, hnone⟩ := h.stuck (List.cons.inj heq).2
    refine ⟨hscope, List.forall_mem_cons.2 ⟨fun v hv => ?_, hnone⟩⟩
    rw [herror] at hv
    cases hv

/-- A pass that comes to its end has entered values and made the other entries wait. By induction
along the entries, with one of the two lemmas above for each. -/
theorem exists_passed {p q : Pass ε} (h : pass eval pending p = .ok q)
    (hpending : Pending eval entries base pending p.scope) :
    ∃ waits, Passed eval entries base pending p q waits := by
  induction pending generalizing p with
  | nil =>
    cases h
    exact ⟨[], rfl, .slnil, hpending, .refl _, fun _ h => (List.not_mem_nil h).elim,
      fun herror => ⟨herror, rfl⟩, fun _ => ⟨rfl, fun _ h => (List.not_mem_nil h).elim⟩⟩
  | cons entry rest ih =>
    obtain ⟨name, formula⟩ := entry
    rw [pass] at h
    split at h
    · next v hv =>
      obtain ⟨waits, hpassed⟩ := ih h (hpending.enter hv)
      exact ⟨waits, hpassed.of_ok (hpending.fresh _ List.mem_cons_self)⟩
    · next error herror =>
      split at h
      · obtain ⟨waits, hpassed⟩ := ih h hpending.tail
        refine ⟨_, hpassed.of_error hpending ?_ herror⟩
        have hne : ∀ other ∈ rest, other.1 ≠ name := by
          rintro other hother rfl
          exact (List.nodup_cons.1 hpending.nodup).1 (List.mem_map.2 ⟨other, hother, rfl⟩)
        rw [get?_of_pass h hne]
        exact hpending.fresh _ List.mem_cons_self
      · cases h

/-- A pass comes to its end if there is a complete scope to come to. An error that ends the pass
would have to be there in the complete scope as well, where every formula has a value. -/
theorem exists_pass_eq_ok {p : Pass ε} (hsteady : Steady eval entries base)
    (hother : Grown eval entries base other) (hcomplete : Complete entries other)
    (hpending : Pending eval entries base pending p.scope) : ∃ q, pass eval pending p = .ok q := by
  induction pending generalizing p with
  | nil => exact ⟨p, rfl⟩
  | cons entry rest ih =>
    obtain ⟨name, formula⟩ := entry
    rw [pass]
    split
    · next v hv => exact ih (hpending.enter hv)
    · next error herror =>
      split
      · exact ih hpending.tail
      · next hclass =>
        -- the error would stay, but the formula has a value in the complete scope
        have hentry := hpending.subset List.mem_cons_self
        have hpart := hpending.grown.partOf hsteady hother hcomplete.closed
        obtain ⟨v, hv⟩ := Option.isSome_iff_exists.1 (hcomplete _ hentry)
        have hvalue := hother.eval_of_get? hsteady hentry hv
        obtain heq | ⟨error', herror', hclass'⟩ :=
          hsteady.stays _ hentry hpending.grown hother hpart
        · rw [hvalue, herror] at heq
          cases heq
        · rw [herror] at herror'
          cases herror'
          exact absurd hclass' hclass

/-! ### Resolutions -/

/-- The pending entries are all that have no value yet. -/
def Covers (entries pending : List (String × ε)) (scope : Scope) : Prop :=
  ∀ entry ∈ entries, entry ∈ pending ∨ (scope.get? entry.1).isSome

theorem Passed.covers {p q : Pass ε} (h : Passed eval entries base pending p q waits)
    (hcovers : Covers entries pending p.scope) : Covers entries waits q.scope := by
  intro entry hentry
  rcases hcovers entry hentry with hmem | hsome
  · exact h.settled entry hmem
  · exact .inr (h.part.isSome hsome)

theorem Covers.complete (h : Covers entries [] scope) : Complete entries scope :=
  fun entry hentry => (h entry hentry).resolve_left List.not_mem_nil

/-- The entries that wait behind a pass from a clean state, in their order. -/
theorem Passed.waiting_reverse {q : Pass ε}
    (h : Passed eval entries base pending ⟨scope, [], none⟩ q waits) :
    q.waiting.reverse = waits := by
  rw [h.waiting, List.append_nil, List.reverse_reverse]

/-- A resolution that succeeds has entered a value for every entry. Every pass covers the entries:
each has a value already, or it waits. -/
theorem complete_of_resolveIn {passes : Nat} {resolved : Scope}
    (h : resolveIn eval passes pending scope = .ok resolved)
    (hpending : Pending eval entries base pending scope) (hcovers : Covers entries pending scope)
    (hpasses : pending.length ≤ passes) :
    Grown eval entries base resolved ∧ Complete entries resolved := by
  induction passes generalizing pending scope with
  | zero =>
    obtain rfl := List.length_eq_zero_iff.1 (Nat.le_zero.1 hpasses)
    cases h
    exact ⟨hpending.grown, hcovers.complete⟩
  | succ passes ih =>
    cases pending with
    | nil =>
      cases h
      exact ⟨hpending.grown, hcovers.complete⟩
    | cons entry rest =>
      simp only [resolveIn] at h
      split at h
      · cases h
      · next q hq =>
        obtain ⟨waits, hpassed⟩ := exists_passed hq hpending
        have hlength : q.waiting.length = waits.length := by
          rw [← hpassed.waiting_reverse, List.length_reverse]
        split at h
        · split at h
          · cases h
          · next hne =>
            rw [hpassed.waiting_reverse] at h
            refine ih h hpassed.left (hpassed.covers hcovers) ?_
            have hle := hpassed.sublist.length_le
            rw [hlength] at hne
            omega
        · next herror =>
          cases h
          obtain rfl := (hpassed.clean herror).2
          exact ⟨hpassed.left.grown, (hpassed.covers hcovers).complete⟩

/-- A resolution succeeds with the complete scope that there is to come to. It cannot be stuck
before, because then its scope is closed, and the complete one is part of every closed one. -/
theorem resolveIn_eq_ok {passes : Nat} (hsteady : Steady eval entries base)
    (hother : Grown eval entries base other) (hcomplete : Complete entries other)
    (hpending : Pending eval entries base pending scope) (hcovers : Covers entries pending scope)
    (hpasses : pending.length ≤ passes) : resolveIn eval passes pending scope = .ok other := by
  have hend : ∀ {scope : Scope}, Grown eval entries base scope → Complete entries scope →
      scope = other := fun hgrown hfull =>
    (hgrown.partOf hsteady hother hcomplete.closed).antisymm
      (hother.partOf hsteady hgrown hfull.closed)
  induction passes generalizing pending scope with
  | zero =>
    obtain rfl := List.length_eq_zero_iff.1 (Nat.le_zero.1 hpasses)
    rw [resolveIn, hend hpending.grown hcovers.complete]
  | succ passes ih =>
    cases pending with
    | nil => rw [resolveIn, hend hpending.grown hcovers.complete]
    | cons entry rest =>
      obtain ⟨q, hq⟩ := exists_pass_eq_ok (p := ⟨scope, [], none⟩) hsteady hother hcomplete hpending
      obtain ⟨waits, hpassed⟩ := exists_passed hq hpending
      have hlength : q.waiting.length = waits.length := by
        rw [← hpassed.waiting_reverse, List.length_reverse]
      simp only [resolveIn, hq]
      split
      · split
        · next hstuck =>
          -- a scope in which all pending entries wait is closed, so the complete one is part of it
          rw [hlength] at hstuck
          have hall := hpassed.sublist.eq_of_length hstuck
          obtain ⟨-, hnone⟩ := hpassed.stuck hall
          have hclosed : Closed eval entries scope := by
            intro entry hentry v hv
            rcases hcovers entry hentry with hmem | hsome
            · exact absurd hv (hnone entry hmem v)
            · exact hsome
          have hpart := hother.partOf hsteady hpending.grown hclosed
          have hsome := hpart.isSome (hcomplete entry (hpending.subset List.mem_cons_self))
          rw [hpending.fresh entry List.mem_cons_self] at hsome
          cases hsome
        · next hne =>
          rw [hpassed.waiting_reverse]
          refine ih hpassed.left (hpassed.covers hcovers) ?_
          have hle := hpassed.sublist.length_le
          rw [hlength] at hne
          omega
      · next herror =>
        obtain rfl := (hpassed.clean herror).2
        rw [hend hpassed.left.grown (hpassed.covers hcovers).complete]

theorem Steady.pending_base (h : Steady eval entries base) :
    Pending eval entries base entries base :=
  ⟨.base, List.Subset.refl _, h.nodup, h.fresh⟩

theorem Steady.of_perm (h : Steady eval entries base) (hperm : entries'.Perm entries) :
    Steady eval entries' base where
  nodup := (hperm.map Prod.fst).nodup_iff.2 h.nodup
  fresh entry hentry := h.fresh entry (hperm.subset hentry)
  stays entry hentry _ _ hgrown hother :=
    h.stays entry (hperm.subset hentry) (hgrown.of_subset hperm.subset)
      (hother.of_subset hperm.subset)

/-- What a resolution comes to is grown and complete. -/
theorem complete_of_resolve {resolved : Scope} (hsteady : Steady eval entries base)
    (h : resolve eval entries base = .ok resolved) :
    Grown eval entries base resolved ∧ Complete entries resolved :=
  complete_of_resolveIn h hsteady.pending_base (fun _ hentry => .inl hentry) (Nat.le_refl _)

/-- **A resolution comes to a fixed point**: each entry has the value that its formula has in the
end. It had this value when it was taken in, and the values that were found since have not changed
it. -/
theorem get?_of_resolve {resolved : Scope} (hsteady : Steady eval entries base)
    (h : resolve eval entries base = .ok resolved) {entry : String × ε}
    (hentry : entry ∈ entries) :
    ∃ v, resolved.get? entry.1 = some v ∧ eval entry.2 resolved = .ok v := by
  obtain ⟨hgrown, hcomplete⟩ := complete_of_resolve hsteady h
  obtain ⟨v, hv⟩ := Option.isSome_iff_exists.1 (hcomplete entry hentry)
  exact ⟨v, hv, hgrown.eval_of_get? hsteady hentry hv⟩

/-- **The order does not matter**: what a resolution comes to, it comes to in every order of the
entries. Either way leads to a scope that no formula can add to, and these contain each other. -/
theorem resolve_of_perm {resolved : Scope} (hsteady : Steady eval entries base)
    (h : resolve eval entries base = .ok resolved) (hperm : entries'.Perm entries) :
    resolve eval entries' base = .ok resolved := by
  obtain ⟨hgrown, hcomplete⟩ := complete_of_resolve hsteady h
  have hsteady' := hsteady.of_perm hperm
  exact resolveIn_eq_ok hsteady' (hgrown.of_subset hperm.symm.subset)
    (fun entry hentry => hcomplete entry (hperm.subset hentry)) hsteady'.pending_base
    (fun _ hentry => .inl hentry) (Nat.le_refl _)

end FixedPoint

end ProcedureChart
