import ProcedureChart.Proofs.Expr.Printer
import ProcedureChart.Proofs.Expr.Refinement
import ProcedureChart.Proofs.Expr.Scanning

/-!
# Reading what was printed

A printed term is read as the expression that it means (`evaluate_print`). There are two halves.
The tokens of the text are the words of the term: a space ends every word where the word itself
ends, a minus sign in front of a space begins no number, and a quoted text comes back from its
escapes. And the words of a term are a phrase of the grammar at the rung of the term, since words
that would stand at a tighter rung are in parentheses. Each pair of parentheses is needed: no text
of the expression has fewer tokens (`Term.length_le_phrase`).
-/

namespace ProcedureChart.Expr

variable {quote : Quote} {rest : List Char}

/-! ### The end of a word -/

/-- What may stand behind a word: nothing, or a space and whatever follows it. -/
def Apart (rest : List Char) : Prop := ∀ c ∈ rest.head?, c = ' '

theorem apart_nil : Apart [] := nofun

theorem apart_cons : Apart (' ' :: rest) := by
  rintro _ ⟨⟩
  rfl

theorem Apart.spaced (h : Apart rest) : Spaced rest := by
  intro c hc
  obtain rfl := h c hc
  decide

/-! ### Words are scanned as their tokens -/

theorem quoted_escape (quote : Quote) (cs : List Char) :
    Quoted quote.char cs (quote.escape cs ++ [quote.char]) := by
  induction cs with
  | nil => exact .close
  | cons c cs ih =>
    rw [Quote.escape]
    split
    · exact .escaped ih
    · next hc =>
      obtain ⟨hne, hbackslash⟩ := not_or.1 hc
      exact .plain hbackslash hne ih

theorem exists_eq_ofList (s : String) : ∃ cs, s = String.ofList cs :=
  ⟨s.toList, String.ofList_toList.symm⟩

/-- A word is spelled like its token, whether an operand ends in front of it or not. Numbers are
printed without a sign, so the minus in front of one is a word of its own. -/
theorem Word.spells (w : Word) (quote : Quote) (operand : Bool) :
    Spells operand w.token (w.spelling quote) := by
  cases w with
  | number n => exact .number n.isUnsigned
  | text s =>
    obtain ⟨held, rfl⟩ := exists_eq_ofList s
    rw [Word.spelling, String.toList_ofList]
    exact .text quote.char_cases (quoted_escape quote held)
  | name s =>
    obtain ⟨s, hs⟩ := s
    obtain ⟨cs, rfl⟩ := exists_eq_ofList s
    cases cs with
    | nil => cases hs
    | cons c cs =>
      rw [isName, String.toList_ofList] at hs
      obtain ⟨hstart, hall⟩ := Bool.and_eq_true_iff.1 hs
      rw [Word.spelling, String.toList_ofList]
      exact .name hstart hall
  | state s =>
    obtain ⟨s, hne, hall⟩ := s
    have htoken : Word.token (.state ⟨s, hne, hall⟩) = .state (String.ofList s.toList) :=
      congrArg Token.state String.ofList_toList.symm
    rw [htoken]
    exact .state (fun hnil => hne (String.toList_eq_nil_iff.1 hnil)) hall
  | mark m => exact .mark

/-- The lexemes of printed words are the tokens of the words. -/
theorem lexes_words (quote : Quote) (ws : List Word) (operand : Bool) :
    Lexes operand ([' '].intercalate (ws.map (Word.spelling quote))) (ws.map Word.token) := by
  induction ws generalizing operand with
  | nil => exact lexes_nil
  | cons w ws ih =>
    cases ws with
    | nil => exact .token ((w.spells quote operand).scans apart_nil.spaced) lexes_nil
    | cons w' ws =>
      exact .token ((w.spells quote operand).scans apart_cons.spaced) ((ih _).blank (by decide))

theorem tokenize_print (quote : Quote) (e : Term) :
    ∃ ls, tokenize (e.print quote) = .ok ls ∧ ls.map Lexeme.token = e.words.map Word.token := by
  refine tokenize_of_lexes ?_
  rw [Term.print, String.toList_ofList]
  exact lexes_words quote e.words false

/-! ### Printed words are phrases -/

/-- Fitted words are a phrase of the rung they are fitted to. -/
theorem Phrase.fit {own : Rung} {ws : List Word} {e : Expr} (place : Rung)
    (h : Phrase own (ws.map Word.token) e) :
    Phrase place ((Term.fit place own ws).map Word.token) e := by
  rw [Term.fit]
  split
  · next hle => exact h.mono hle
  · have hparens := (Phrase.parens h.to_conditional).of_primary place
    simpa using hparens

mutual

/-- The words of a term are a phrase, and its tree is what the term means. Each operand is put in
parentheses where its rung is looser than its place. -/
theorem Term.phrase_words : ∀ e : Term, Phrase e.rung (e.words.map Word.token) e.tree
  | .number n => .number _
  | .text s => .text s
  | .keyword k => .keyword k.keyword?_eq
  | .name s => .name s.isFree
  | .state s => .state s
  | .field e part => by
    have he := e.phrase_words.fit .operand
    rw [words, List.map_append]
    exact .field part he
  | .call function [] => .emptyCall function.isFree
  | .call function (e :: rest) => by
    have harguments := Term.arguments_words (e :: rest) (List.cons_ne_nil _ _)
    rw [words, List.map_cons, List.map_cons]
    exact .call function.isFree harguments
  | .negation e => .negation (e.phrase_words.fit .unary)
  | .opposite e => .opposite (e.phrase_words.fit .unary)
  | .binary op left right => by
    have hleft := left.phrase_words.fit (.chain op.level)
    have hright := right.phrase_words.fit (.ofLevel op.level.tighter)
    rw [words, List.map_append, List.map_cons]
    exact .binary op hleft hright
  | .conditional condition whenTrue whenFalse => by
    have hcondition := condition.phrase_words.fit (.chain .disjunction)
    have htrue := whenTrue.phrase_words.to_conditional
    have hfalse := whenFalse.phrase_words.to_conditional
    rw [words, List.map_append, List.map_cons, List.map_append, List.map_cons]
    exact .conditional hcondition htrue hfalse

/-- The words of the arguments of a call, with a parenthesis behind them. -/
theorem Term.arguments_words : ∀ args : List Term, args ≠ [] →
    Arguments ((argumentWords args ++ [Word.mark .closeParen]).map Word.token) (trees args)
  | [], hne => absurd rfl hne
  | [e], _ => by
    have he := e.phrase_words.to_conditional
    rw [argumentWords, List.map_append]
    exact .last he
  | e :: e' :: rest, _ => by
    have he := e.phrase_words.to_conditional
    have hrest := Term.arguments_words (e' :: rest) (List.cons_ne_nil _ _)
    rw [argumentWords, List.append_assoc, List.map_append, List.cons_append, List.map_cons]
    · exact .more he hrest
    · exact nofun

end

/-! ### No parentheses can be spared -/

namespace Term

/-- Words need the fewer parentheses the looser the rung is at which they stand. -/
theorem length_fit_le {place place' : Rung} (own : Rung) (ws : List Word)
    (h : place'.rank ≤ place.rank) : (fit place own ws).length ≤ (fit place' own ws).length := by
  rw [fit, fit]
  split
  · split
    · exact Nat.le_refl _
    · simp only [List.length_cons, List.length_append]
      omega
  · next hlooser =>
    have hstill : ¬ own.rank ≤ place'.rank := fun hle => hlooser (Nat.le_trans hle h)
    simp only [if_neg hstill, Nat.le_refl]

theorem fit_conditional (own : Rung) (ws : List Word) : fit .conditional own ws = ws :=
  if_pos own.rank_le

theorem length_fit_parens (place own : Rung) (ws : List Word) :
    (fit place own ws).length ≤ ws.length + 2 := by
  rw [fit]
  split
  · exact Nat.le_add_right _ _
  · simp

theorem fit_self (own : Rung) (ws : List Word) : fit own own ws = ws :=
  if_pos (Nat.le_refl _)

mutual

/-- No phrase with the tree of a term has fewer tokens than the fitted words of the term. By
recursion on the phrase: a rule that is not the one of the tree only moves to a tighter rung, or
adds parentheses that count for what they allow. -/
theorem length_le_phrase : ∀ {place : Rung} {ts : List Token} {t : Expr},
    Phrase place ts t → ∀ e : Term, e.tree = t →
      (fit place e.rung e.words).length ≤ ts.length
  | _, _, _, .number _, e, h | _, _, _, .text _, e, h | _, _, _, .keyword _, e, h => by
    cases e with
    | number | text | keyword => exact Nat.le_refl 1
    | _ => cases h
  | _, _, _, .state _, e, h => by
    cases e with
    | state => exact Nat.le_refl 1
    | _ => cases h
  | _, _, _, .name _, e, h => by
    cases e with
    | name => exact Nat.le_refl 1
    | _ => cases h
  | _, _, _, .emptyCall _, e, h => by
    cases e with
    | call function args =>
      cases args with
      | nil => exact Nat.le_refl 3
      | cons => cases h
    | _ => cases h
  | _, _, _, .call _ harguments, e, h => by
    cases e with
    | call function args =>
      obtain ⟨-, hargs⟩ := Expr.call.inj h
      have hle := length_le_arguments harguments args hargs
      rw [rung, fit_self, words]
      simpa using hle
    | _ => cases h
  | _, _, _, .parens hinside, e, h => by
    have hwords := length_le_phrase hinside e h
    rw [fit_conditional] at hwords
    have := Term.length_fit_parens .primary e.rung e.words
    simp only [List.length_cons, List.length_append, List.length_nil]
    omega
  | _, _, _, .fieldless hprimary, e, h =>
    Nat.le_trans (length_fit_le _ _ (by decide)) (length_le_phrase hprimary e h)
  | _, _, _, .field _ hoperand, e, h => by
    cases e with
    | field e part =>
      have hle := length_le_phrase hoperand e (Expr.field.inj h).1
      rw [rung, fit_self, words]
      simpa using hle
    | _ => cases h
  | _, _, _, .unsigned hoperand, e, h =>
    Nat.le_trans (length_fit_le _ _ (by decide)) (length_le_phrase hoperand e h)
  | _, _, _, .negation hoperand, e, h => by
    cases e with
    | negation e =>
      have hle := length_le_phrase hoperand e (Expr.negation.inj h)
      rw [rung, fit_self, words]
      simpa using hle
    | _ => cases h
  | _, _, _, .opposite hoperand, e, h => by
    cases e with
    | opposite e =>
      have hle := length_le_phrase hoperand e (Expr.opposite.inj h)
      rw [rung, fit_self, words]
      simpa using hle
    | _ => cases h
  | .chain level, _, _, .single hoperand, e, h =>
    have hlooser : (Rung.ofLevel level.tighter).rank ≤ (Rung.chain level).rank := by
      cases level <;> decide
    Nat.le_trans (length_fit_le _ _ hlooser) (length_le_phrase hoperand e h)
  | _, _, _, .binary op hleft hright, e, h => by
    cases e with
    | binary op' left right =>
      obtain ⟨hop, hl, hr⟩ := Expr.binary.inj h
      have hl := length_le_phrase hleft left hl
      have hr := length_le_phrase hright right hr
      subst hop
      rw [rung, fit_self, words]
      simp only [List.length_append, List.length_cons]
      omega
    | _ => cases h
  | _, _, _, .unconditional hoperand, e, h =>
    Nat.le_trans (length_fit_le _ _ (by decide)) (length_le_phrase hoperand e h)
  | _, _, _, .conditional hcondition htrue hfalse, e, h => by
    cases e with
    | conditional condition whenTrue whenFalse =>
      obtain ⟨h₁, h₂, h₃⟩ := Expr.conditional.inj h
      have h₁ := length_le_phrase hcondition condition h₁
      have h₂ := length_le_phrase htrue whenTrue h₂
      have h₃ := length_le_phrase hfalse whenFalse h₃
      rw [fit_conditional] at h₂ h₃ ⊢
      rw [words]
      simp only [List.length_append, List.length_cons]
      omega
    | _ => cases h

/-- No arguments with the trees of terms have fewer tokens than the terms have words and the
parenthesis behind them. -/
theorem length_le_arguments : ∀ {ts : List Token} {es : List Expr},
    Arguments ts es → ∀ args : List Term, trees args = es →
      (argumentWords args).length + 1 ≤ ts.length
  | _, _, .last hlast, args, h => by
    match args, h with
    | [e], h =>
      have hle := length_le_phrase hlast e (List.cons.inj h).1
      rw [fit_conditional] at hle
      rw [argumentWords]
      simpa using hle
    | e :: e' :: args, h => cases (List.cons.inj h).2
  | _, _, .more hfirst hmore, args, h => by
    cases args with
    | nil => cases h
    | cons e args =>
      obtain ⟨he, hargs⟩ := List.cons.inj h
      have he := length_le_phrase hfirst e he
      have hargs := length_le_arguments hmore args hargs
      rw [fit_conditional] at he
      cases args with
      | nil =>
        rw [argumentWords]
        simp only [List.length_append, List.length_cons]
        omega
      | cons e' args =>
        rw [argumentWords]
        · simp only [List.length_append, List.length_cons]
          omega
        · exact nofun

end

end Term

/-! ### Reading and evaluating -/

theorem derives_print (quote : Quote) (e : Term) : Derives (e.print quote) e.tree := by
  obtain ⟨ls, hls, htokens⟩ := tokenize_print quote e
  refine ⟨ls, hls, ?_⟩
  rw [htokens]
  exact e.phrase_words.to_conditional

/-- **Print, then evaluate**: a printed term is read as the expression that it means, in every
context its value, or its error, is that of this expression, and no text of the expression has
fewer tokens. -/
theorem evaluate_print (quote : Quote) (e : Term) :
    read (e.print quote) = .ok e.tree ∧
      (∀ c, evaluateInOnePass (e.print quote) c = e.tree.eval c ∧
        evaluate (e.print quote) c = e.tree.eval c) ∧
      ∀ ts, Phrase .conditional ts e.tree → e.words.length ≤ ts.length := by
  have hread := read_of_derives (derives_print quote e)
  refine ⟨hread, ?_, ?_⟩
  · intro c
    have hvalue : evaluate (e.print quote) c = e.tree.eval c := by rw [evaluate, hread, run]
    exact ⟨(evaluateInOnePass_eq _ c).trans hvalue, hvalue⟩
  · intro ts hphrase
    have hle := Term.length_le_phrase hphrase e rfl
    rwa [Term.fit_conditional] at hle

/-- A difference needs parentheses on the right of a minus sign and none on the left. -/
example : (Term.binary .minus
    (.binary .minus (.text "it's") (.state ⟨"a", by decide⟩))
    (.binary .minus (.opposite (.text "")) (.state ⟨"b", by decide⟩))).print .single =
      "'it\\'s' - $a - ( - '' - $b )" := by
  decide

end ProcedureChart.Expr
