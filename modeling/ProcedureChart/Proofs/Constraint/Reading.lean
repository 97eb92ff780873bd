import ProcedureChart.Proofs.Constraint.Single

/-!
# What the conditions of a text say

The conditions read off a plainly written expression, if they are complete, all hold where the
expression is true (`reads`). Where there is just one, the expression has its value, so that it says
as well when the expression is false. The text is split where the tokens of the expression are, and
the parts are the operands of its conjunctions.

This takes more than plain writing. A text is split at every conjunction outside of parentheses, so
no conditional must stand beside one there (`Unmixed`).
-/

namespace ProcedureChart.Constraint

open ProcedureChart.Expr (Token Mark Spelled Phrase Stripped Free cut Unmixed)

variable {cs : List Char} {ts us : List Token} {e : Expr} {k : Constraint}

/-! ### One text -/

theorem Parsed.complete_conjunction {parts : List Parsed} :
    (Parsed.conjunction parts).complete ↔ ∀ part ∈ parts, part.complete :=
  List.all_eq_true

/-- A text with complete conditions is one simple condition, or a conjunction of several texts with
complete conditions. -/
theorem cases_of_complete (h : (parseChars cs).complete) :
    let text := stripParens (Text.trim cs)
    (∃ k, (truthOf? text).or (singleOf? text) = some k ∧ parseChars cs = ⟨[k], true⟩) ∨
      1 < (split '&' text).length ∧ (∀ part ∈ split '&' text, (parseChars part).complete) ∧
        parseChars cs = .conjunction ((split '&' text).map parseChars) := by
  intro text
  rw [parseChars] at h ⊢
  split
  · next k hk => exact .inl ⟨k, hk, rfl⟩
  · next hnone =>
    rw [hnone] at h
    dsimp only at h
    split at h
    · next hseveral =>
      rw [List.attach_map_val] at h
      rw [dif_pos hseveral, List.attach_map_val]
      refine .inr ⟨hseveral, fun part hpart => ?_, rfl⟩
      exact Parsed.complete_conjunction.1 h _ (List.mem_map_of_mem hpart)
    · split at h <;> cases h

/-- One simple condition is no disjunction: a truth word has no mark, and the other readers refuse a
text that has several parts. -/
theorem length_split_of_single (h : (truthOf? cs).or (singleOf? cs) = some k) :
    (split '|' cs).length ≤ 1 := by
  rcases Option.or_eq_some_iff.1 h with h | ⟨-, h⟩
  · unfold truthOf? at h
    split at h
    · next hword =>
      obtain rfl : cs = "true".toList := String.toList_ofList.symm.trans (congrArg _ hword)
      decide
    · next hword =>
      obtain rfl : cs = "false".toList := String.toList_ofList.symm.trans (congrArg _ hword)
      decide
    · cases h
  · unfold singleOf? at h
    split at h
    · cases h
    · next hsingle => exact Nat.le_of_not_lt (not_or.1 hsingle).2

theorem exists_of_forall₂ {α β : Type} {R : α → β → Prop} {as : List α} {bs : List β}
    (h : List.Forall₂ R as bs) : ∀ a ∈ as, ∃ b ∈ bs, R a b := by
  induction h with
  | nil => exact nofun
  | @cons a b as bs hab _ ih =>
    intro a' ha'
    rcases List.mem_cons.1 ha' with rfl | ha'
    · exact ⟨b, List.mem_cons_self, hab⟩
    · obtain ⟨b', hb', hR⟩ := ih a' ha'
      exact ⟨b', List.mem_cons_of_mem _ hb', hR⟩

/-- Where the conditions are complete there is no disjunction outside of parentheses. A disjunction
in an operand of a conjunction makes this operand incomplete, and with it the whole. -/
theorem free_of_complete (hus : Spelled false (stripParens (Text.trim cs)) us)
    (h : (parseChars cs).complete) : Free .or 0 us := by
  induction hlength : cs.length using Nat.strongRecOn generalizing cs us with
  | ind n ih =>
    rcases cases_of_complete h with ⟨k, hk, -⟩ | ⟨hseveral, hparts, -⟩
    · refine Expr.free_of_length_cut ?_
      rw [← (split_spelled .or hus).length_eq]
      exact length_split_of_single hk
    · have hfree : ∀ part ∈ cut .and 0 us, Free .or 0 part := by
        intro part hpart
        obtain ⟨text, htext, hspelled⟩ :=
          exists_of_forall₂ (List.Forall₂.flip (split_spelled .and hus)) part hpart
        obtain ⟨vs, hvs, hstripped⟩ := strip_spelled hspelled.trim
        have hlt := length_lt_of_mem_split htext hseveral
        have hle := length_strip_trim_le cs
        exact hstripped.free nofun (ih text.length (by omega) hvs (hparts text htext) rfl)
      obtain ⟨part, parts, hcut⟩ := List.exists_cons_of_ne_nil (Expr.cut_ne_nil .and 0 us)
      rw [hcut] at hfree
      exact Expr.free_of_cut (by decide) rfl hcut (hfree part List.mem_cons_self) fun p hp =>
        hfree p (List.mem_cons_of_mem _ hp)

/-! ### All conditions -/

/-- What conditions say about an expression. -/
structure Parsed.Reads (parsed : Parsed) (e : Expr) : Prop where
  ne_nil : parsed.constraints ≠ []
  /-- the value of the expression is a truth value, and if it is true the filter holds -/
  holds : ∀ k ∈ parsed.constraints, ∀ φ, FieldFilter.ofConstraint? k = some φ →
    Expr.keyword? φ.field = none → ∀ ctx v, e.eval ctx = .ok v →
      ∃ b, v = .bool b ∧ (b → ∃ w, ctx.lookup φ.field = some w ∧ φ.test.holds w)
  /-- a condition that is the only one has the value of the expression -/
  mirrors : ∀ k, parsed.constraints = [k] → k.Mirrors e

theorem Mirrors.reads (h : k.Mirrors e) : (⟨[k], true⟩ : Parsed).Reads e where
  ne_nil := List.cons_ne_nil _ _
  holds k' hk' φ hφ hkeyword ctx v hv := by
    obtain rfl := List.mem_singleton.1 hk'
    obtain ⟨w, hw, rfl⟩ := h φ hφ hkeyword ctx v hv
    exact ⟨_, rfl, fun htrue => ⟨w, hw, htrue⟩⟩
  mirrors k' hk' := by
    obtain rfl := List.singleton_inj.1 hk'
    exact h

/-- Several texts have several conditions. -/
theorem ne_singleton_of_flatMap {parts : List Parsed} (hseveral : 1 < parts.length)
    (hne : ∀ part ∈ parts, part.constraints ≠ []) : parts.flatMap Parsed.constraints ≠ [k] := by
  rcases parts with _ | ⟨first, _ | ⟨second, parts⟩⟩
  · cases hseveral
  · exact absurd hseveral (Nat.lt_irrefl 1)
  · intro heq
    have hfirst := List.length_pos_iff.2 (hne first List.mem_cons_self)
    have hsecond := List.length_pos_iff.2 (hne second (List.mem_cons_of_mem _ List.mem_cons_self))
    have hlength := congrArg List.length heq
    rw [List.flatMap_cons, List.flatMap_cons, List.length_append, List.length_append,
      List.length_singleton] at hlength
    omega

/-- The conditions of a conjunction are those of its operands. An operand need not be `e` itself: it
is enough that `e` implies it, as a conjunction implies what it is made of. -/
theorem reads_conjunction {parts : List Parsed} (hseveral : 1 < parts.length)
    (hbool : ∀ ctx v, e.eval ctx = .ok v → ∃ b, v = .bool b)
    (h : ∀ part ∈ parts, ∃ e', e.Implies e' ∧ part.Reads e') :
    (Parsed.conjunction parts).Reads e where
  ne_nil := by
    obtain ⟨part, parts, rfl⟩ := List.exists_cons_of_length_pos (Nat.lt_of_succ_lt hseveral)
    obtain ⟨e', -, hreads⟩ := h part List.mem_cons_self
    exact List.append_ne_nil_of_left_ne_nil hreads.ne_nil _
  holds k hk φ hφ hkeyword ctx v hv := by
    obtain ⟨part, hpart, hk⟩ := List.mem_flatMap.1 hk
    obtain ⟨e', himplies, hreads⟩ := h part hpart
    obtain ⟨b, rfl⟩ := hbool ctx v hv
    refine ⟨b, rfl, fun hb => ?_⟩
    obtain ⟨v', hv', htrue⟩ := himplies ctx (.bool b) hv hb
    obtain ⟨b', rfl, hholds⟩ := hreads.holds k hk φ hφ hkeyword ctx v' hv'
    exact hholds htrue
  mirrors k hk := by
    refine absurd hk (ne_singleton_of_flatMap hseveral fun part hpart => ?_)
    obtain ⟨e', -, hreads⟩ := h part hpart
    exact hreads.ne_nil

/-- **The conditions of a text hold where its expression is true.** If they are complete, what the
filter of a condition says about its field is so in every context in which the expression has a true
value; and if there is a single condition, the value of the expression is what its filter says. -/
theorem reads (hcs : Spelled false cs ts) (he : Phrase .conditional ts e) (hunmixed : Unmixed ts)
    (h : (parseChars cs).complete) : (parseChars cs).Reads e := by
  induction hlength : cs.length using Nat.strongRecOn generalizing cs ts e with
  | ind n ih =>
    obtain ⟨us, hus, hstripped⟩ := strip_spelled hcs.trim
    have hphrase := hstripped.phrase he
    rcases cases_of_complete h with ⟨k, hk, hparse⟩ | ⟨hseveral, hparts, hparse⟩
    · rw [hparse]
      exact (mirrors_single hus hphrase hk).reads
    · have hand : ¬Free .and 0 us := by
        intro hfree
        rw [(split_spelled .and hus).length_eq, Expr.cut_of_free hfree] at hseveral
        exact Nat.lt_irrefl 1 hseveral
      have hquestion := (hunmixed us e hstripped.isInfix hphrase).resolve_right hand
      have hchain := hphrase.chain_conjunction hquestion (free_of_complete hus h)
      obtain ⟨left, right, rfl⟩ := hchain.eq_and hand
      rw [hparse]
      refine reads_conjunction (by rwa [List.length_map]) (fun _ _ hv => (Expr.eval_and hv).1)
        fun parsed hparsed => ?_
      obtain ⟨text, htext, rfl⟩ := List.mem_map.1 hparsed
      obtain ⟨part, hpart, hspelled⟩ := exists_of_forall₂ (split_spelled .and hus) text htext
      obtain ⟨e', he', himplies⟩ := Expr.phrase_of_mem_cut hchain rfl part hpart
      have hinfix : part <:+: ts := (Expr.infix_of_mem_cut hpart).trans hstripped.isInfix
      have hlt := length_lt_of_mem_split htext hseveral
      have hle := length_strip_trim_le cs
      exact ⟨e', himplies, ih text.length (by omega) hspelled he'
        (fun vs e hvs => hunmixed vs e (hvs.trans hinfix)) (hparts text htext) rfl⟩

end ProcedureChart.Constraint
