import ProcedureChart.Proofs.Expr.Balance

/-!
# Matching parentheses

How many parentheses are open behind some turns into them and out of them (`openBehind`). A phrase
closes no parenthesis that it did not open, so nowhere in it fewer are open than in front of it, and
behind it as many are (`balanced_phrase`). That its turns add up to 0 (`turns_phrase`) would not be
enough for that.
-/

namespace ProcedureChart.Expr

/-- How many parentheses are open behind some turns, if `n` are open in front of them. There is no
answer where one is closed and none is open. -/
def openBehind (n : Int) : List Int → Option Int
  | [] => some n
  | turn :: turns => if n + turn < 0 then none else openBehind (n + turn) turns

/-- Whether turns lead back to where they began, and never further out. -/
def Balanced (turns : List Int) : Prop := openBehind 0 turns = some 0

instance (turns : List Int) : Decidable (Balanced turns) := inferInstanceAs (Decidable (_ = _))

variable {n k d turn : Int} {us vs : List Int}

theorem openBehind_cons (h : 0 ≤ n + turn) :
    openBehind n (turn :: us) = openBehind (n + turn) us :=
  if_neg (Int.not_lt.2 h)

theorem openBehind_append (n : Int) (us vs : List Int) :
    openBehind n (us ++ vs) = (openBehind n us).bind (openBehind · vs) := by
  induction us generalizing n with
  | nil => rfl
  | cons turn us ih =>
    rw [List.cons_append, openBehind, openBehind]
    split
    · rfl
    · exact ih _

theorem openBehind_add (h : openBehind n us = some k) (hd : 0 ≤ d) :
    openBehind (n + d) us = some (k + d) := by
  induction us generalizing n with
  | nil => exact congrArg (fun k => some (k + d)) (Option.some.inj h)
  | cons turn us ih =>
    rw [openBehind] at h
    split at h
    · cases h
    · rw [openBehind_cons (by omega), Int.add_right_comm]
      exact ih h

/-- Balanced turns lead back wherever they begin. -/
theorem balanced_iff : Balanced us ↔ ∀ n, 0 ≤ n → openBehind n us = some n := by
  refine ⟨fun h n hn => ?_, fun h => h 0 (Int.le_refl 0)⟩
  have hadd := openBehind_add h hn
  rwa [Int.zero_add] at hadd

theorem Balanced.behind (h : Balanced us) (hn : 0 ≤ n) :
    openBehind n (us ++ vs) = openBehind n vs := by
  rw [openBehind_append, balanced_iff.1 h n hn]
  rfl

theorem Balanced.append (hus : Balanced us) (hvs : Balanced vs) : Balanced (us ++ vs) :=
  (hus.behind (Int.le_refl 0)).trans hvs

theorem balanced_cons_zero : Balanced (0 :: us) ↔ Balanced us := Iff.rfl

theorem balanced_of_zero (h : ∀ turn ∈ us, turn = 0) : Balanced us := by
  induction us with
  | nil => rfl
  | cons turn us ih =>
    obtain ⟨rfl, hus⟩ := List.forall_mem_cons.1 h
    exact balanced_cons_zero.2 (ih hus)

/-- Balanced turns behind an opening parenthesis make no difference. -/
theorem Balanced.opened (hus : Balanced us) (hvs : Balanced (1 :: vs)) :
    Balanced (1 :: (us ++ vs)) :=
  (hus.behind Int.one_nonneg).trans hvs

theorem Balanced.parens (h : Balanced us) : Balanced (1 :: (us ++ [-1])) := h.opened rfl

/-! ### Phrases are balanced -/

/-- The turns of tokens. -/
def turnsOf (ts : List Token) : List Int := ts.map Token.turn

theorem turnsOf_append (ts us : List Token) : turnsOf (ts ++ us) = turnsOf ts ++ turnsOf us :=
  List.map_append

/-- A mark between balanced tokens. -/
theorem balanced_between {m : Mark} {ts us : List Token} (hm : (Token.mark m).turn = 0)
    (hts : Balanced (turnsOf ts)) (hus : Balanced (turnsOf us)) :
    Balanced (turnsOf (ts ++ .mark m :: us)) := by
  have hmark : turnsOf (.mark m :: us) = 0 :: turnsOf us := congrArg (· :: turnsOf us) hm
  rw [turnsOf_append, hmark]
  exact hts.append (balanced_cons_zero.2 hus)

mutual

/-- A phrase closes the parentheses that it opens, and no other ones. So the parenthesis in front of
one is closed by the one behind it, whatever the phrase is. -/
theorem balanced_phrase : ∀ {rung : Rung} {ts : List Token} {e : Expr}, Phrase rung ts e →
    Balanced (turnsOf ts)
  | _, _, _, .number _ | _, _, _, .text _ | _, _, _, .state _ | _, _, _, .keyword _
  | _, _, _, .name _ | _, _, _, .emptyCall _ => rfl
  | _, _, _, .call _ harguments => balanced_cons_zero.2 (balanced_arguments harguments)
  | _, _, _, .parens hinside => by
    rw [← List.cons_append, turnsOf_append]
    exact (balanced_phrase hinside).parens
  | _, _, _, .fieldless h | _, _, _, .unsigned h | _, _, _, .single h
  | _, _, _, .unconditional h => balanced_phrase h
  | _, _, _, .field _ hoperand => balanced_between rfl (balanced_phrase hoperand) rfl
  | _, _, _, .negation hoperand | _, _, _, .opposite hoperand =>
    balanced_cons_zero.2 (balanced_phrase hoperand)
  | _, _, _, .binary op hleft hright =>
    balanced_between op.turn_mark (balanced_phrase hleft) (balanced_phrase hright)
  | _, _, _, .conditional hcondition hwhenTrue hwhenFalse =>
    balanced_between rfl (balanced_phrase hcondition)
      (balanced_between rfl (balanced_phrase hwhenTrue) (balanced_phrase hwhenFalse))

/-- So do arguments together with the parenthesis in front of them. -/
theorem balanced_arguments : ∀ {ts : List Token} {args : List Expr}, Arguments ts args →
    Balanced (1 :: turnsOf ts)
  | _, _, .last hlast => by
    rw [turnsOf_append]
    exact (balanced_phrase hlast).parens
  | _, _, .more hfirst hmore => by
    have hcomma : Balanced [0] := rfl
    rw [turnsOf_append]
    exact (balanced_phrase hfirst).opened (hcomma.opened (balanced_arguments hmore))

end

end ProcedureChart.Expr
