import Mathlib.Data.List.Chain
import ProcedureChart.Proofs.Expr.Balance

/-!
# Neighbouring tokens

Which token can stand behind which in a phrase (`Phrase.joined`), as far as it rules out numerals
that the grammar does not have: a plus sign in front, a point without digits before it, an exponent.
Also, the tokens of a phrase determine its tree (`Phrase.unique`).
-/

namespace ProcedureChart.Expr

variable {t : Token} {ts us : List Token} {e : Expr}

/-- Whether a phrase can begin with a token. -/
def Token.opens : Token → Bool
  | .mark .openParen | .mark .not | .mark .minus => true
  | .mark _ => false
  | _ => true

/-- Whether a phrase can end with a token. -/
def Token.closes : Token → Bool
  | .mark .closeParen => true
  | .mark _ => false
  | _ => true

/-- Whether a token can stand behind another one in a phrase: no name behind what can end one, and
behind any other token neither a sign for addition nor a point. -/
def Token.Follows (t u : Token) : Prop :=
  if t.closes then ∀ s, u ≠ .name s else u ≠ .mark .plus ∧ u ≠ .mark .dot

/-- Tokens each of which can stand behind the one before, between one that can begin a phrase and
one that can end it. -/
structure Joined (ts : List Token) : Prop where
  chain : ts.IsChain Token.Follows
  first : ∀ t ∈ ts.head?, t.opens
  last : ∀ t ∈ ts.getLast?, t.closes

theorem Token.Follows.of_opens (ht : t.closes = false) {u : Token} (hu : u.opens) :
    t.Follows u := by
  rw [Follows, ht]
  refine ⟨?_, ?_⟩ <;> rintro rfl <;> cases hu

theorem Token.follows_mark (ht : t.closes) (m : Mark) : t.Follows (.mark m) := by
  rw [Follows, if_pos ht]
  exact nofun

theorem joined_word (ht : ∀ m, t ≠ .mark m) : Joined [t] := by
  refine ⟨.singleton t, ?_, ?_⟩
  all_goals
    intro u hu
    cases hu
    cases t with
    | mark m => exact absurd rfl (ht m)
    | _ => rfl

/-- A mark in front of tokens. -/
theorem Joined.cons {m : Mark} (h : Joined ts) (hne : ts ≠ []) (hopens : (Token.mark m).opens)
    (hcloses : (Token.mark m).closes = false) : Joined (.mark m :: ts) := by
  obtain ⟨t, ts, rfl⟩ := List.exists_cons_of_ne_nil hne
  refine ⟨h.chain.cons_cons (.of_opens hcloses (h.first t rfl)), ?_, ?_⟩
  · intro u hu
    cases hu
    exact hopens
  · intro u hu
    rw [List.getLast?_cons_cons] at hu
    exact h.last u hu

/-- A mark between tokens. -/
theorem Joined.append {m : Mark} (hts : Joined ts) (hne : ts ≠ []) (hus : Joined us)
    (hne' : us ≠ []) (hcloses : (Token.mark m).closes = false) : Joined (ts ++ .mark m :: us) := by
  obtain ⟨u, us, rfl⟩ := List.exists_cons_of_ne_nil hne'
  obtain ⟨t, ts, rfl⟩ := List.exists_cons_of_ne_nil hne
  refine ⟨List.isChain_append.2 ⟨hts.chain, ?_, ?_⟩, hts.first, ?_⟩
  · exact hus.chain.cons_cons (.of_opens hcloses (hus.first u rfl))
  · intro x hx y hy
    cases hy
    exact Token.follows_mark (hts.last x hx) m
  · intro x hx
    rw [List.getLast?_append_of_ne_nil _ (List.cons_ne_nil _ _), List.getLast?_cons_cons] at hx
    exact hus.last x hx

/-- A closing parenthesis behind tokens. -/
theorem Joined.concat (h : Joined ts) (hne : ts ≠ []) : Joined (ts ++ [.mark .closeParen]) := by
  obtain ⟨t, ts, rfl⟩ := List.exists_cons_of_ne_nil hne
  refine ⟨List.isChain_append.2 ⟨h.chain, .singleton _, ?_⟩, h.first, ?_⟩
  · intro x hx y hy
    cases hy
    exact Token.follows_mark (h.last x hx) _
  · intro x hx
    rw [List.getLast?_concat] at hx
    cases hx
    rfl

/-- The parenthesis of a call. -/
theorem Joined.call {s : String} (hfollows : ∀ t ∈ ts.head?, (Token.mark .openParen).Follows t)
    (hchain : ts.IsChain Token.Follows) (hne : ts ≠ []) (hlast : ∀ t ∈ ts.getLast?, t.closes) :
    Joined (.name s :: .mark .openParen :: ts) := by
  obtain ⟨t, ts, rfl⟩ := List.exists_cons_of_ne_nil hne
  refine ⟨.cons_cons (Token.follows_mark rfl _) (.cons_cons (hfollows t rfl) hchain), ?_, ?_⟩
  · intro u hu
    cases hu
    rfl
  · intro u hu
    rw [List.getLast?_cons_cons, List.getLast?_cons_cons] at hu
    exact hlast u hu

theorem Arguments.ne_nil {args : List Expr} (h : Arguments ts args) : ts ≠ [] := by
  cases h with
  | last h => exact List.append_ne_nil_of_left_ne_nil h.ne_nil _
  | more h _ => exact List.append_ne_nil_of_left_ne_nil h.ne_nil _

mutual

/-- The tokens of a phrase stand behind each other as they can. Each rule joins phrases at a mark,
so only the tokens at the joints have to be looked at. -/
theorem Phrase.joined : ∀ {rung : Rung} {ts : List Token} {e : Expr}, Phrase rung ts e → Joined ts
  | _, _, _, .number _ | _, _, _, .text _ | _, _, _, .state _ | _, _, _, .keyword _
  | _, _, _, .name _ => joined_word nofun
  | _, _, _, .emptyCall _ =>
    Joined.call (by rintro _ ⟨⟩; exact ⟨nofun, nofun⟩) (.singleton _) (List.cons_ne_nil _ _)
      (by rintro _ ⟨⟩; rfl)
  | _, _, _, .call _ harguments =>
    have h := harguments.joined
    Joined.call (fun t ht => .of_opens rfl (h.first t ht)) h.chain harguments.ne_nil h.last
  | _, _, _, .parens hinside =>
    (hinside.joined.concat hinside.ne_nil).cons (List.concat_ne_nil _ _) rfl rfl
  | _, _, _, .fieldless h | _, _, _, .unsigned h | _, _, _, .single h
  | _, _, _, .unconditional h => h.joined
  | _, _, _, .field _ hoperand =>
    hoperand.joined.append hoperand.ne_nil (joined_word nofun) (List.cons_ne_nil _ _) rfl
  | _, _, _, .negation hoperand | _, _, _, .opposite hoperand =>
    hoperand.joined.cons hoperand.ne_nil rfl rfl
  | _, _, _, .binary op hleft hright =>
    hleft.joined.append hleft.ne_nil hright.joined hright.ne_nil (by cases op <;> rfl)
  | _, _, _, .conditional hcondition hwhenTrue hwhenFalse =>
    hcondition.joined.append hcondition.ne_nil
      (hwhenTrue.joined.append hwhenTrue.ne_nil hwhenFalse.joined hwhenFalse.ne_nil rfl)
      (List.append_ne_nil_of_left_ne_nil hwhenTrue.ne_nil _) rfl

/-- So do the tokens of arguments. -/
theorem Arguments.joined : ∀ {ts : List Token} {args : List Expr}, Arguments ts args → Joined ts
  | _, _, .last hlast => hlast.joined.concat hlast.ne_nil
  | _, _, .more hfirst hmore =>
    hfirst.joined.append hfirst.ne_nil hmore.joined hmore.ne_nil rfl

end

/-! ### One tree -/

/-- The tokens of an expression determine its tree. -/
theorem Phrase.unique {e' : Expr} (h : Phrase .conditional ts e) (h' : Phrase .conditional ts e') :
    e = e' := by
  -- where the tokens stand makes no difference
  have hts : (ts.map (Lexeme.mk · 0)).map Lexeme.token = ts := by
    rw [List.map_map]
    exact List.map_id ts
  have hread : parse 0 (ts.map (Lexeme.mk · 0)) = .ok e := parse_complete (hts.symm ▸ h)
  have hread' : parse 0 (ts.map (Lexeme.mk · 0)) = .ok e' := parse_complete (hts.symm ▸ h')
  exact Except.ok.inj (hread.symm.trans hread')

end ProcedureChart.Expr
