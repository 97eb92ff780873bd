import ProcedureChart.Proofs.Expr.Completeness
import ProcedureChart.Proofs.Expr.Words

/-!
# Phrases and their parentheses

What can be told from the tokens of a phrase without reading it. Parentheses in it match, and an
operator outside of them belongs to the loosest rung that has it. So a phrase without a conditional
may be cut at its outer conjunctions, and each part is a phrase that is true if the whole is
(`phrase_of_mem_cut`), and parentheses around a whole phrase may be taken off (`Phrase.of_parens`).
-/

namespace ProcedureChart.Expr

/-! ### Outside of parentheses -/

/-- How far tokens lead into parentheses altogether. -/
def turns : List Token → Int
  | [] => 0
  | t :: ts => t.turn + turns ts

@[simp] theorem turns_nil : turns [] = 0 := rfl

@[simp] theorem turns_cons (t : Token) (ts : List Token) : turns (t :: ts) = t.turn + turns ts := rfl

/-- Tokens one behind the other lead as far into parentheses as both parts do, one after the
other. -/
@[simp] theorem turns_append (ts us : List Token) : turns (ts ++ us) = turns ts + turns us := by
  induction ts with
  | nil => rw [List.nil_append, turns_nil, Int.zero_add]
  | cons t ts ih => rw [List.cons_append, turns_cons, turns_cons, ih, Int.add_assoc]

/-- Whether a mark is nowhere outside of parentheses in tokens that begin at a depth. -/
def Free (m : Mark) (depth : Int) : List Token → Prop
  | [] => True
  | t :: ts => ¬(depth = 0 ∧ t = .mark m) ∧ Free m (depth + t.turn) ts

/-- The tokens between the occurrences of a mark outside of parentheses. -/
def cut (m : Mark) (depth : Int) : List Token → List (List Token)
  | [] => [[]]
  | t :: ts =>
    if depth = 0 ∧ t = .mark m then [] :: cut m depth ts
    else (cut m (depth + t.turn) ts).modifyHead (t :: ·)

variable {m : Mark} {depth depth' : Int} {t : Token} {ts us : List Token}

/-- A mark is nowhere outside in a whole if it is so in both parts, the second of which begins at
the depth that the first one leads to. -/
theorem free_append : Free m depth (ts ++ us) ↔ Free m depth ts ∧ Free m (depth + turns ts) us := by
  induction ts generalizing depth with
  | nil => rw [List.nil_append, turns_nil, Int.add_zero, Free, true_and]
  | cons t ts ih => rw [List.cons_append, Free, ih, Free, turns_cons, and_assoc, Int.add_assoc]

/-- There is a part even if no mark cuts anything. -/
theorem cut_ne_nil (m : Mark) (depth : Int) (ts : List Token) : cut m depth ts ≠ [] := by
  induction ts generalizing depth with
  | nil => exact List.cons_ne_nil _ _
  | cons t ts ih =>
    rw [cut]
    split
    · exact List.cons_ne_nil _ _
    · exact fun h => ih _ (List.modifyHead_eq_nil_iff.1 h)

/-- A mark that is nowhere outside leaves the tokens in one part. -/
theorem cut_of_free (h : Free m depth ts) : cut m depth ts = [ts] := by
  induction ts generalizing depth with
  | nil => rfl
  | cons t ts ih => rw [cut, if_neg h.1, ih h.2, List.modifyHead_cons]

/-- A mark outside stands between the parts in front of it and those behind it. It is outside if the
parentheses in front of it match, which is what the sum of their turns says. -/
theorem cut_append (hturn : (Token.mark m).turn = 0) (h : depth + turns ts = 0) :
    cut m depth (ts ++ .mark m :: us) = cut m depth ts ++ cut m 0 us := by
  induction ts generalizing depth with
  | nil =>
    rw [turns_nil, Int.add_zero] at h
    subst h
    exact if_pos ⟨rfl, rfl⟩
  | cons t ts ih =>
    rw [turns_cons] at h
    rw [List.cons_append, cut, cut]
    by_cases hmark : depth = 0 ∧ t = .mark m
    · rw [hmark.2, hturn, Int.zero_add] at h
      rw [if_pos hmark, if_pos hmark, ih h, List.cons_append]
    · rw [← Int.add_assoc] at h
      rw [if_neg hmark, if_neg hmark, ih h]
      obtain ⟨part, parts, hrest⟩ := List.exists_cons_of_ne_nil (cut_ne_nil m (depth + t.turn) ts)
      rw [hrest]
      rfl

/-- A mark that is nowhere outside in the parts is nowhere outside in the whole: it is not the mark
at which the whole was cut, so it is in one of the parts. -/
theorem free_of_cut {m' : Mark} (hm : m ≠ m') (hturn : (Token.mark m).turn = 0)
    {part : List Token} {parts : List (List Token)} (hcut : cut m depth ts = part :: parts)
    (hpart : Free m' depth part) (hparts : ∀ part ∈ parts, Free m' 0 part) : Free m' depth ts := by
  induction ts generalizing depth part parts with
  | nil => exact trivial
  | cons t ts ih =>
    rw [cut] at hcut
    split at hcut
    · next hmark =>
      obtain ⟨rfl, rfl⟩ := hmark
      obtain ⟨rfl, rfl⟩ := List.cons.inj hcut
      refine ⟨fun h => hm (Token.mark.inj h.2), ?_⟩
      obtain ⟨part, parts, hrest⟩ := List.exists_cons_of_ne_nil (cut_ne_nil m 0 ts)
      rw [hrest] at hparts
      rw [hturn]
      exact ih hrest (hparts part List.mem_cons_self) fun p hp =>
        hparts p (List.mem_cons_of_mem _ hp)
    · obtain ⟨part', parts', hrest⟩ := List.exists_cons_of_ne_nil
        (cut_ne_nil m (depth + t.turn) ts)
      rw [hrest, List.modifyHead_cons] at hcut
      obtain ⟨rfl, rfl⟩ := List.cons.inj hcut
      exact ⟨hpart.1, ih hrest hpart.2 hparts⟩

/-- Where a mark cuts nothing it is nowhere outside. -/
theorem free_of_length_cut (h : (cut m depth ts).length ≤ 1) : Free m depth ts := by
  induction ts generalizing depth with
  | nil => exact trivial
  | cons t ts ih =>
    rw [cut] at h
    split at h
    · have hpos := List.length_pos_iff.2 (cut_ne_nil m depth ts)
      rw [List.length_cons] at h
      omega
    · next hmark =>
      rw [List.length_modifyHead] at h
      exact ⟨hmark, ih h⟩

/-- The first part is at the front, and all parts are in the whole. Only the first one depends on
how deep the cut begins. -/
theorem infix_of_cut {part : List Token} {parts : List (List Token)}
    (h : cut m depth ts = part :: parts) : part <+: ts ∧ ∀ p ∈ parts, p <:+: ts := by
  induction ts generalizing depth part parts with
  | nil =>
    obtain ⟨rfl, rfl⟩ := List.cons.inj h
    exact ⟨List.nil_prefix, nofun⟩
  | cons t ts ih =>
    rw [cut] at h
    split at h
    · next hmark =>
      obtain ⟨rfl, rfl⟩ := List.cons.inj h
      obtain ⟨part', parts', hrest⟩ := List.exists_cons_of_ne_nil (cut_ne_nil m depth ts)
      obtain ⟨hfirst, hmore⟩ := ih hrest
      rw [hrest]
      refine ⟨List.nil_prefix, fun p hp => List.infix_cons ?_⟩
      rcases List.mem_cons.1 hp with rfl | hp
      · exact hfirst.isInfix
      · exact hmore p hp
    · obtain ⟨part', parts', hrest⟩ := List.exists_cons_of_ne_nil
        (cut_ne_nil m (depth + t.turn) ts)
      rw [hrest, List.modifyHead_cons] at h
      obtain ⟨rfl, rfl⟩ := List.cons.inj h
      obtain ⟨hfirst, hmore⟩ := ih hrest
      exact ⟨List.cons_prefix_cons.2 ⟨rfl, hfirst⟩, fun p hp => List.infix_cons (hmore p hp)⟩

/-- Each part stands in the whole as it is. -/
theorem infix_of_mem_cut {part : List Token} (h : part ∈ cut m depth ts) : part <:+: ts := by
  obtain ⟨first, parts, hcut⟩ := List.exists_cons_of_ne_nil (cut_ne_nil m depth ts)
  obtain ⟨hfirst, hparts⟩ := infix_of_cut hcut
  rw [hcut] at h
  rcases List.mem_cons.1 h with rfl | h
  · exact hfirst.isInfix
  · exact hparts part h

/-! ### Phrases are balanced -/

/-- Whether the phrases of a rung have an operator only inside of parentheses. The mark of
subtraction is a sign as well. -/
def Rung.Below (op : Operator) : Rung → Prop
  | .conditional => False
  | .chain level => op ≠ .minus ∧ looseness (some level) < looseness (some op.level)
  | .unary | .operand | .primary => op ≠ .minus

/-- The operands in a chain of a level are below an operator, if the level is no looser than that of
the operator. -/
theorem Rung.below_tighter {op : Operator} {level : Level} (hop : op ≠ .minus)
    (h : looseness (some level) ≤ looseness (some op.level)) :
    (Rung.ofLevel level.tighter).Below op := by
  have htighter := looseness_tighter level
  cases hlevel : level.tighter with
  | none => exact hop
  | some tighter =>
    rw [hlevel] at htighter
    exact ⟨hop, Nat.lt_of_lt_of_le htighter h⟩

/-- No two operators share a mark. -/
theorem Operator.mark_injective {op op' : Operator} (h : op.mark = op'.mark) : op = op' := by
  have hmarks := congrArg ofMark? h
  rw [ofMark?_mark, ofMark?_mark] at hmarks
  exact Option.some.inj hmarks

/-- The marks that are no binary operators. -/
theorem Operator.mark_ne {op : Operator} {m : Mark} (h : ofMark? m = none) : op.mark ≠ m :=
  fun heq => by
    rw [← heq, ofMark?_mark] at h
    cases h

/-- Operators lead neither into parentheses nor out of them. -/
theorem Operator.turn_mark (op : Operator) : (Token.mark op.mark).turn = 0 := by cases op <;> rfl

mutual

/-- The parentheses of a phrase match: each rule that opens one closes it, and the other rules have
none of their own. -/
theorem turns_phrase : ∀ {rung : Rung} {ts : List Token} {e : Expr}, Phrase rung ts e →
    turns ts = 0
  | _, _, _, .number _ | _, _, _, .text _ | _, _, _, .state _ | _, _, _, .keyword _
  | _, _, _, .name _ | _, _, _, .emptyCall _ => rfl
  | _, _, _, .call _ harguments => by
    simp only [turns_cons, turns_arguments harguments, Token.turn]
    rfl
  | _, _, _, .parens hinside => by
    simp only [turns_cons, turns_append, turns_phrase hinside, turns_nil, Token.turn]
    rfl
  | _, _, _, .fieldless hprimary => turns_phrase hprimary
  | _, _, _, .field _ hoperand => by
    simp only [turns_append, turns_phrase hoperand, turns_cons, turns_nil, Token.turn]
    rfl
  | _, _, _, .unsigned hoperand => turns_phrase hoperand
  | _, _, _, .negation hoperand | _, _, _, .opposite hoperand => by
    simp only [turns_cons, turns_phrase hoperand, Token.turn]
    rfl
  | _, _, _, .single hoperand => turns_phrase hoperand
  | _, _, _, .binary op hleft hright => by
    simp only [turns_append, turns_cons, turns_phrase hleft, turns_phrase hright,
      Operator.turn_mark]
    rfl
  | _, _, _, .unconditional hoperand => turns_phrase hoperand
  | _, _, _, .conditional hcondition hwhenTrue hwhenFalse => by
    simp only [turns_append, turns_cons, turns_phrase hcondition, turns_phrase hwhenTrue,
      turns_phrase hwhenFalse, Token.turn]
    rfl

/-- The parenthesis behind the arguments closes one that is open. -/
theorem turns_arguments : ∀ {ts : List Token} {args : List Expr}, Arguments ts args →
    turns ts = -1
  | _, _, .last hlast => by
    simp only [turns_append, turns_phrase hlast, turns_cons, turns_nil, Token.turn]
    rfl
  | _, _, .more hfirst hmore => by
    simp only [turns_append, turns_phrase hfirst, turns_cons, turns_arguments hmore, Token.turn]
    rfl

end

/-! ### Operators outside of parentheses -/

/-- A word in front is no mark and leaves the depth as it is. -/
theorem free_word {m : Mark} (hmark : ∀ m, t ≠ .mark m) (h : Free m depth ts) :
    Free m depth (t :: ts) := by
  have hturn : t.turn = 0 := by
    cases t with
    | mark m' => exact absurd rfl (hmark m')
    | _ => rfl
  refine ⟨fun h => hmark m h.2, ?_⟩
  rwa [hturn, Int.add_zero]

/-- Another mark in front may change the depth at which the rest begins. -/
theorem free_mark {m m' : Mark} (hne : m ≠ m')
    (h : Free m (depth + (Token.mark m').turn) ts) : Free m depth (.mark m' :: ts) :=
  ⟨fun h => hne (Token.mark.inj h.2).symm, h⟩

/-- Another mark that is no parenthesis does not. -/
theorem free_flat {m m' : Mark} (hne : m ≠ m') (hturn : (Token.mark m').turn = 0)
    (h : Free m depth ts) : Free m depth (.mark m' :: ts) := by
  refine free_mark hne ?_
  rwa [hturn, Int.add_zero]

/-- Behind a phrase one is as deep inside of parentheses as in front of it. -/
theorem free_phrase_append {m : Mark} {rung : Rung} {e : Expr} (h : Phrase rung ts e)
    (hleft : Free m depth ts) (hright : Free m depth us) : Free m depth (ts ++ us) := by
  refine free_append.2 ⟨hleft, ?_⟩
  rwa [turns_phrase h, Int.add_zero]

mutual

/-- An operator is not outside in the phrases of the rungs below its own, nor in any phrase that
stands in parentheses. -/
theorem free_phrase {op : Operator} : ∀ {rung : Rung} {ts : List Token} {e : Expr},
    Phrase rung ts e → ∀ {depth : Int}, 0 ≤ depth → 0 < depth ∨ rung.Below op →
    Free op.mark depth ts
  | _, _, _, .number _, _, _, _ | _, _, _, .text _, _, _, _ | _, _, _, .state _, _, _, _
  | _, _, _, .keyword _, _, _, _ | _, _, _, .name _, _, _, _ => free_word nofun trivial
  | _, _, _, .emptyCall _, _, _, _ =>
    free_word nofun (free_mark (Operator.mark_ne rfl) (free_mark (Operator.mark_ne rfl) trivial))
  | _, _, _, .call _ harguments, _, hdepth, _ =>
    free_word nofun (free_mark (Operator.mark_ne rfl)
      (free_arguments harguments (Int.lt_add_one_of_le hdepth)))
  | _, _, _, .parens hinside, depth, hdepth, _ => by
    have hopen : 0 < depth + (Token.mark .openParen).turn := Int.lt_add_one_of_le hdepth
    exact free_mark (Operator.mark_ne rfl) (free_phrase_append hinside
      (free_phrase hinside (Int.le_of_lt hopen) (.inl hopen))
      (free_mark (Operator.mark_ne rfl) trivial))
  | _, _, _, .fieldless hprimary, _, hdepth, h => free_phrase hprimary hdepth h
  | _, _, _, .field _ hoperand, _, hdepth, h =>
    free_phrase_append hoperand (free_phrase hoperand hdepth h)
      (free_flat (Operator.mark_ne rfl) rfl (free_word nofun trivial))
  | _, _, _, .unsigned hoperand, _, hdepth, h => free_phrase hoperand hdepth h
  | _, _, _, .negation hoperand, _, hdepth, h =>
    free_flat (Operator.mark_ne rfl) rfl (free_phrase hoperand hdepth h)
  | _, _, _, .opposite hoperand, depth, hdepth, h => by
    refine ⟨?_, ?_⟩
    · rintro ⟨rfl, hminus⟩
      have hop : op ≠ .minus := h.resolve_left (Int.lt_irrefl 0)
      exact hop (Operator.mark_injective (Token.mark.inj hminus).symm)
    · show Free op.mark (depth + 0) _
      rw [Int.add_zero]
      exact free_phrase hoperand hdepth h
  | _, _, _, .single hoperand, _, hdepth, h =>
    free_phrase hoperand hdepth (h.imp_right fun h => Rung.below_tighter h.1 (Nat.le_of_lt h.2))
  | _, _, _, .binary op' hleft hright, depth, hdepth, h => by
    refine free_phrase_append hleft (free_phrase hleft hdepth h) ⟨?_, ?_⟩
    · rintro ⟨rfl, hmark⟩
      obtain rfl := Operator.mark_injective (Token.mark.inj hmark)
      exact Nat.lt_irrefl _ (h.resolve_left (Int.lt_irrefl 0)).2
    · rw [Operator.turn_mark, Int.add_zero]
      exact free_phrase hright hdepth
        (h.imp_right fun h => Rung.below_tighter h.1 (Nat.le_of_lt h.2))
  | _, _, _, .unconditional hoperand, _, hdepth, h =>
    free_phrase hoperand hdepth (.inl (h.resolve_right id))
  | _, _, _, .conditional hcondition hwhenTrue hwhenFalse, depth, hdepth, h => by
    have hinside : 0 < depth := h.resolve_right id
    refine free_phrase_append hcondition (free_phrase hcondition hdepth (.inl hinside)) ?_
    refine free_flat (Operator.mark_ne rfl) rfl ?_
    refine free_phrase_append hwhenTrue (free_phrase hwhenTrue hdepth (.inl hinside)) ?_
    exact free_flat (Operator.mark_ne rfl) rfl (free_phrase hwhenFalse hdepth (.inl hinside))

/-- No operator is outside of the parentheses of arguments. -/
theorem free_arguments {op : Operator} : ∀ {ts : List Token} {args : List Expr},
    Arguments ts args → ∀ {depth : Int}, 0 < depth → Free op.mark depth ts
  | _, _, .last hlast, depth, hdepth =>
    free_phrase_append hlast (free_phrase hlast (Int.le_of_lt hdepth) (.inl hdepth))
      (free_mark (Operator.mark_ne rfl) trivial)
  | _, _, .more hfirst hmore, depth, hdepth => by
    exact free_phrase_append hfirst (free_phrase hfirst (Int.le_of_lt hdepth) (.inl hdepth))
      (free_flat (Operator.mark_ne rfl) rfl (free_arguments hmore hdepth))

end

/-! ### Conjunctions -/

/-- Where one expression is true another one is. -/
def Implies (e e' : Expr) : Prop :=
  ∀ c v, eval c e = .ok v → v.truthy → ∃ w, eval c e' = .ok w ∧ w.truthy

theorem Implies.refl (e : Expr) : e.Implies e := fun _ v hv htrue => ⟨v, hv, htrue⟩

theorem Implies.trans {e e' e'' : Expr} (h : e.Implies e') (h' : e'.Implies e'') :
    e.Implies e'' := by
  intro c v hv htrue
  obtain ⟨w, hw, htrue⟩ := h c v hv htrue
  exact h' c w hw htrue

/-- The value of a conjunction is a truth value, and if it is true so are both operands. A false
left operand settles it without the right one, which need not have a value then. -/
theorem eval_and {c : Context} {left right : Expr} {v : Value}
    (h : eval c (.binary .and left right) = .ok v) :
    (∃ b, v = .bool b) ∧ (v.truthy → (∃ w, eval c left = .ok w ∧ w.truthy) ∧
      ∃ w, eval c right = .ok w ∧ w.truthy) := by
  rw [eval] at h
  cases hleft : eval c left with
  | error => rw [hleft] at h; cases h
  | ok a =>
    rw [hleft] at h
    cases ha : a.truthy with
    | false =>
      have hv : v = .bool false := by
        simpa [bind, Except.bind, pure, Except.pure, Operator.settled?, ha] using h.symm
      subst hv
      exact ⟨⟨false, rfl⟩, nofun⟩
    | true =>
      cases hright : eval c right with
      | error => simp [bind, Except.bind, Operator.settled?, ha, hright] at h
      | ok b =>
        have hv : v = .bool b.truthy := by
          simpa [bind, Except.bind, pure, Except.pure, Operator.settled?, Operator.apply, ha,
            hright] using h.symm
        subst hv
        exact ⟨⟨b.truthy, rfl⟩, fun htrue => ⟨⟨a, rfl, ha⟩, b, rfl, htrue⟩⟩

/-- A conjunction is true only where its left operand is, and the lemma below says so of the right
one. -/
theorem implies_left (left right : Expr) : (Expr.binary .and left right).Implies left :=
  fun _ _ h hv => ((eval_and h).2 hv).1

theorem implies_right (left right : Expr) : (Expr.binary .and left right).Implies right :=
  fun _ _ h hv => ((eval_and h).2 hv).2

/-- A phrase without a conditional and a disjunction outside of parentheses is a chain of
conjunctions. -/
theorem Phrase.chain_conjunction (h : Phrase .conditional ts e) (hquestion : Free .question 0 ts)
    (hor : Free .or 0 ts) : Phrase (.chain .conjunction) ts e := by
  have hdisjunction : Phrase (.chain .disjunction) ts e := by
    cases h with
    | unconditional h => exact h
    | conditional hcondition _ _ =>
      have hmark := (free_append.1 hquestion).2.1
      rw [turns_phrase hcondition] at hmark
      exact absurd ⟨rfl, rfl⟩ hmark
  generalize hrung : Rung.chain .disjunction = rung at hdisjunction
  cases hdisjunction with
  | single h =>
    cases hrung
    exact h
  | binary op hleft _ =>
    obtain rfl : op = .or := by cases op <;> first | rfl | cases hrung
    have hmark := (free_append.1 hor).2.1
    rw [turns_phrase hleft] at hmark
    exact absurd ⟨rfl, rfl⟩ hmark
  | _ => cases hrung

/-- A chain of conjunctions with a conjunction outside of parentheses is one. -/
theorem Phrase.eq_and (h : Phrase (.chain .conjunction) ts e) (hand : ¬Free .and 0 ts) :
    ∃ left right, e = .binary .and left right := by
  generalize hrung : Rung.chain .conjunction = rung at h
  cases h with
  | single h =>
    cases hrung
    have hfree : Free Operator.and.mark 0 ts :=
      free_phrase h (Int.le_refl 0) (.inr ⟨nofun, by decide⟩)
    exact absurd hfree hand
  | @binary op _ _ left right _ _ =>
    obtain rfl : op = .and := by cases op <;> first | rfl | cases hrung
    exact ⟨left, right, rfl⟩
  | _ => cases hrung

/-- No phrase in some tokens has a conditional and a conjunction beside each other outside of its
parentheses. -/
def Unmixed (ts : List Token) : Prop :=
  ∀ us e, us <:+: ts → Phrase .conditional us e → Free .question 0 us ∨ Free .and 0 us

/-- A mark that does not occur at all is nowhere outside. -/
theorem free_of_not_mem {m : Mark} (h : .mark m ∉ ts) : Free m depth ts := by
  induction ts generalizing depth with
  | nil => exact trivial
  | cons t ts ih =>
    exact ⟨fun hmark => h (hmark.2 ▸ List.mem_cons_self), ih fun hmem =>
      h (List.mem_cons_of_mem _ hmem)⟩

/-- Without question marks there are no conditionals to be mixed with conjunctions. -/
theorem unmixed_of_not_mem (h : .mark .question ∉ ts) : Unmixed ts := fun _ _ hus _ =>
  .inl (free_of_not_mem fun hmem => h (hus.subset hmem))

/-- The parts between the conjunctions outside of parentheses are phrases, and true where the
whole is. -/
theorem phrase_of_mem_cut : ∀ {rung : Rung} {ts : List Token} {e : Expr}, Phrase rung ts e →
    rung = .chain .conjunction →
    ∀ part ∈ cut .and 0 ts, ∃ e', Phrase .conditional part e' ∧ e.Implies e'
  | _, _, e, .single hsingle, hrung, part, hpart => by
    cases hrung
    have hfree : Free Operator.and.mark 0 _ :=
      free_phrase hsingle (Int.le_refl 0) (.inr ⟨nofun, by decide⟩)
    change Free .and 0 _ at hfree
    rw [cut_of_free hfree] at hpart
    obtain rfl := List.mem_singleton.1 hpart
    exact ⟨e, .unconditional (.single (.single hsingle)), .refl e⟩
  | _, _, _, .binary op hleft hright, hrung, part, hpart => by
    obtain rfl : op = .and := by cases op <;> first | rfl | cases hrung
    have hfree : Free Operator.and.mark 0 _ :=
      free_phrase hright (Int.le_refl 0) (.inr ⟨nofun, by decide⟩)
    change Free .and 0 _ at hfree
    change part ∈ cut .and 0 (_ ++ .mark .and :: _) at hpart
    rw [cut_append rfl ((Int.zero_add _).trans (turns_phrase hleft)), cut_of_free hfree] at hpart
    rcases List.mem_append.1 hpart with hpart | hpart
    · obtain ⟨e', hphrase, himplies⟩ := phrase_of_mem_cut hleft rfl part hpart
      exact ⟨e', hphrase, (implies_left _ _).trans himplies⟩
    · obtain rfl := List.mem_singleton.1 hpart
      exact ⟨_, .unconditional (.single (.single hright)), implies_right _ _⟩

/-! ### Outer parentheses -/

/-- Whether the parenthesis that closes the outermost of `depth` open ones is the last token. -/
def Closes (depth : Int) : List Token → Prop
  | [] => False
  | t :: ts => if depth + t.turn ≤ 0 then ts = [] else Closes (depth + t.turn) ts

/-- Nothing stands behind the parenthesis that closes the outermost one. -/
theorem Closes.eq_nil (h : Closes depth (ts ++ us)) (hdepth : 0 < depth)
    (hturns : depth + turns ts ≤ 0) : us = [] := by
  induction ts generalizing depth with
  | nil =>
    rw [turns_nil, Int.add_zero] at hturns
    exact absurd hdepth (Int.not_lt.2 hturns)
  | cons t ts ih =>
    rw [List.cons_append, Closes] at h
    split at h
    · exact (List.append_eq_nil_iff.1 h).2
    · next hopen =>
      rw [turns_cons, ← Int.add_assoc] at hturns
      exact ih h (Int.not_le.1 hopen) hturns

/-- Everything in front of that parenthesis is inside. -/
theorem Closes.free (h : Closes depth ts) (hdepth : 0 < depth) : Free m depth ts := by
  induction ts generalizing depth with
  | nil => exact trivial
  | cons t ts ih =>
    refine ⟨fun h => (Int.ne_of_gt hdepth) h.1, ?_⟩
    rw [Closes] at h
    split at h
    · rw [h]
      exact trivial
    · next hopen => exact ih h (Int.not_le.1 hopen)

/-- Every phrase has a token. -/
theorem Phrase.ne_nil : ∀ {rung : Rung} {ts : List Token} {e : Expr}, Phrase rung ts e → ts ≠ []
  | _, _, _, .number _ | _, _, _, .text _ | _, _, _, .state _ | _, _, _, .keyword _
  | _, _, _, .name _ | _, _, _, .emptyCall _ | _, _, _, .call _ _ | _, _, _, .parens _
  | _, _, _, .negation _ | _, _, _, .opposite _ => List.cons_ne_nil _ _
  | _, _, _, .fieldless h | _, _, _, .unsigned h | _, _, _, .single h
  | _, _, _, .unconditional h => h.ne_nil
  | _, _, _, .field _ h | _, _, _, .binary _ h _ | _, _, _, .conditional h _ _ =>
    List.append_ne_nil_of_left_ne_nil h.ne_nil _

/-- A phrase in parentheses that close at its end does not go on behind any of its parts. -/
theorem Phrase.append_ne_of_closes {rung : Rung} (h : Phrase rung ts e) (hclose : Closes 1 us)
    (vs : List Token) (hvs : vs ≠ []) : ts ++ vs ≠ .mark .openParen :: us := by
  intro heq
  obtain ⟨t, ts, rfl⟩ := List.exists_cons_of_ne_nil h.ne_nil
  obtain ⟨rfl, rfl⟩ := List.cons.inj heq
  have hturns := turns_phrase h
  rw [turns_cons] at hturns
  exact hvs (hclose.eq_nil Int.one_pos (Int.le_of_eq hturns))

/-- What stands in parentheses around a whole phrase is a phrase with the same tree. -/
theorem Phrase.of_parens : ∀ {rung : Rung} {ts : List Token} {e : Expr}, Phrase rung ts e →
    ∀ {us : List Token}, ts = .mark .openParen :: (us ++ [.mark .closeParen]) →
    Closes 1 (us ++ [.mark .closeParen]) → Phrase .conditional us e
  | _, _, _, .parens hinside, us, heq, _ => by
    obtain rfl := List.append_inj_left' (List.cons.inj heq).2 rfl
    exact hinside
  | _, _, _, .fieldless h, _, heq, hclose | _, _, _, .unsigned h, _, heq, hclose
  | _, _, _, .single h, _, heq, hclose | _, _, _, .unconditional h, _, heq, hclose =>
    h.of_parens heq hclose
  | _, _, _, .field _ h, _, heq, hclose | _, _, _, .binary _ h _, _, heq, hclose
  | _, _, _, .conditional h _ _, _, heq, hclose =>
    absurd heq (h.append_ne_of_closes hclose _ (List.cons_ne_nil _ _))

/-- Tokens without parentheses around all of them. -/
inductive Stripped : List Token → List Token → Prop where
  | refl (ts : List Token) : Stripped ts ts
  | parens {ts us : List Token} :
      Closes 1 (ts ++ [.mark .closeParen]) → Stripped ts us →
      Stripped (.mark .openParen :: (ts ++ [.mark .closeParen])) us

/-- Without the parentheses around all of it, a phrase is a phrase with the same tree. -/
theorem Stripped.phrase (h : Stripped ts us) (hts : Phrase .conditional ts e) :
    Phrase .conditional us e := by
  induction h with
  | refl => exact hts
  | parens hclose _ ih => exact ih (hts.of_parens rfl hclose)

/-- With parentheses around it, a primary is a primary with the same tree. -/
theorem Stripped.primary (h : Stripped ts us) (hus : Phrase .primary us e) :
    Phrase .primary ts e := by
  induction h with
  | refl => exact hus
  | parens _ _ ih => exact .parens ((ih hus).of_primary .conditional)

/-- Everything inside of parentheses is inside. -/
theorem Stripped.free (h : Stripped ts us) (hm : m ≠ .openParen) (hus : Free m 0 us) :
    Free m 0 ts := by
  cases h with
  | refl => exact hus
  | parens hclose _ => exact free_mark hm (hclose.free Int.one_pos)

/-- What is left without parentheses stood between them. -/
theorem Stripped.isInfix (h : Stripped ts us) : us <:+: ts := by
  induction h with
  | refl => exact List.infix_refl _
  | parens _ _ ih => exact List.infix_cons (ih.trans (List.prefix_append _ _).isInfix)

end ProcedureChart.Expr
