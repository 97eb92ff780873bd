import ProcedureChart.Proofs.Constraint.Valuation
import ProcedureChart.Proofs.Expr.Numerals

/-!
# Literals of both readers

The right term of a comparison may be a literal to the reader of constraints: a truth value, all
that counts as a number when a text is used as one, or what stands in quotes, as it stands there. As
an expression the same text may have no value, as the name `inf` and the numeral `1e5`, or another
one, since a backslash in quotes stands for the character behind it. So the value of a literal is
the value of its text as an expression for just those texts that are literals to both readers
(`evaluate_literal_iff`).
-/

namespace ProcedureChart.Constraint

open ProcedureChart.Expr (Token Quote Quoted Scan Scans Phrase Lexeme)

variable {c quote : Char} {cs held : List Char} {v : Value} {k : Constraint}

/-! ### The literal of a comparison -/

/-- A condition that is read off a text is the only one of some part of it. Nothing else adds
conditions, since conjunctions and disjunctions collect those of their parts. -/
theorem exists_single_of_mem (h : k ∈ (parseChars cs).constraints) :
    ∃ part, (truthOf? part).or (singleOf? part) = some k := by
  induction hlength : cs.length using Nat.strongRecOn generalizing cs with
  | ind n ih =>
    have hpart {mark : Char}
        (hseveral : 1 < (split mark (stripParens (Text.trim cs))).length)
        (hmem : k ∈ ((split mark (stripParens (Text.trim cs))).map parseChars).flatMap
          Parsed.constraints) :
        ∃ part, (truthOf? part).or (singleOf? part) = some k := by
      obtain ⟨parsed, hparsed, hk⟩ := List.mem_flatMap.1 hmem
      obtain ⟨part, hpart, rfl⟩ := List.mem_map.1 hparsed
      have hlt := length_lt_of_mem_split hpart hseveral
      have hle := length_strip_trim_le cs
      exact ih part.length (by omega) hk rfl
    rw [parseChars] at h
    split at h
    · next k' hk' =>
      obtain rfl := List.mem_singleton.1 h
      exact ⟨_, hk'⟩
    · split at h
      · next hseveral =>
        rw [List.attach_map_val] at h
        exact hpart hseveral h
      · split at h
        · next hseveral =>
          rw [List.attach_map_val] at h
          exact hpart hseveral h
        · cases h

/-- The literal of a comparison is that of its right term. No other condition has a literal. -/
theorem literal_of_mem_parse {expr left right : String} {op : CompareOp} {literal : Option Value}
    (h : .comparison left op right literal ∈ (parse expr).constraints) :
    literal = literalOf? right.toList := by
  obtain ⟨part, hpart⟩ := exists_single_of_mem h
  rcases Option.or_eq_some_iff.1 hpart with hpart | ⟨-, hpart⟩
  · unfold truthOf? at hpart
    split at hpart <;> cases hpart
  · unfold singleOf? at hpart
    split at hpart
    · cases hpart
    rcases Option.or_eq_some_iff.1 hpart with hpart | ⟨-, hpart⟩
    · obtain ⟨⟨body, divisible⟩, -, hpart⟩ := Option.bind_eq_some_iff.1 hpart
      obtain ⟨⟨l, divisor⟩, -, hpart⟩ := Option.bind_eq_some_iff.1 hpart
      dsimp only at hpart
      split at hpart <;> cases hpart
    · obtain ⟨⟨op', l, r⟩, -, hpart⟩ := Option.bind_eq_some_iff.1 hpart
      dsimp only at hpart
      split at hpart <;> cases hpart
      rw [String.toList_ofList]

/-! ### Shared literals -/

/-- The literals of both readers and their values: the words for the truth values, digits with an
optional fraction and an optional minus sign, and texts in quotes that hold neither this quote nor a
backslash. -/
inductive SharedLiteral : List Char → Value → Prop where
  | truth (b : Bool) : SharedLiteral (truthWord b).toList (.bool b)
  | number (d : Decimal) : SharedLiteral d.chars (.number d.value)
  | text (quote : Quote) {held : List Char} : quote.char ∉ held → '\\' ∉ held →
      SharedLiteral (quote.char :: (held ++ [quote.char])) (.text (String.ofList held))

/-- A text that is scanned as a single token has the value of that token. -/
theorem evaluate_of_scans {t : Token} {e : Expr} (h : Scans false t cs [])
    (he : Phrase .primary [t] e) (ctx : Context) :
    Expr.evaluate (String.ofList cs) ctx = e.eval ctx := by
  have hlexes : Expr.Lexes false (String.ofList cs).toList [t] := by
    rw [String.toList_ofList, ← List.append_nil cs]
    exact Expr.lexes_nil.token h
  obtain ⟨ls, hls, htokens⟩ := Expr.tokenize_of_lexes hlexes
  rw [Expr.evaluate, Expr.read_of_derives ⟨ls, hls, htokens ▸ he.to_conditional⟩]
  rfl

/-- A shared literal has its value in every context. -/
theorem SharedLiteral.evaluate (h : SharedLiteral cs v) (ctx : Context) :
    Expr.evaluate (String.ofList cs) ctx = .ok v := by
  have hvalue {t : Token} (hscans : Scans false t cs []) (ht : Phrase .primary [t] (.literal v)) :
      Expr.evaluate (String.ofList cs) ctx = .ok v := by
    rw [evaluate_of_scans hscans ht, Expr.eval]
  cases h with
  | truth b =>
    exact hvalue ((Literal.truth b).scans Expr.stops_nil) (Atom.phrase_literal (.truth b))
  | number d => exact hvalue (d.scans Expr.stops_nil) (.number d.value)
  | text quote hquote hbackslash =>
    exact hvalue (Expr.scans_text quote.char_cases (Expr.quoted_of_not_mem hquote hbackslash))
      (.text _)

/-! ### Texts in quotes -/

theorem length_lt_of_quoted {raw : List Char} (h : Quoted quote held raw) :
    held.length < raw.length := by
  induction h with
  | close => exact Nat.one_pos
  | escaped _ ih => exact Nat.lt_succ_of_lt (Nat.succ_lt_succ ih)
  | plain _ _ _ ih => exact Nat.succ_lt_succ ih

/-- A backslash makes what is written longer than what is held. -/
theorem not_mem_of_quoted {raw : List Char} (h : Quoted quote held raw)
    (hlength : raw.length ≤ held.length + 1) : '\\' ∉ held := by
  induction h with
  | close => exact List.not_mem_nil
  | escaped hraw _ =>
    have hlt := length_lt_of_quoted hraw
    simp only [List.length_cons] at hlength
    omega
  | plain hc _ _ ih =>
    simp only [List.length_cons] at hlength
    exact List.not_mem_cons_of_ne_of_not_mem hc.symm (ih (by omega))

theorem suffix_of_quoted {raw : List Char} (h : Quoted quote held raw) : [quote] <:+ raw := by
  induction h with
  | close => exact List.suffix_rfl
  | escaped _ ih => exact ih.trans ((List.suffix_cons _ _).trans (List.suffix_cons _ _))
  | plain _ _ _ ih => exact ih.trans (List.suffix_cons _ _)

/-- What stands in quotes without this quote inside is a single text, if it can be cut into tokens.
It need not hold what is written. -/
theorem lexemes_quoted {position : Nat} {ls : List Lexeme} (hquote : quote = '\'' ∨ quote = '"')
    (hheld : quote ∉ held) (h : Expr.lexemes none position (quote :: (held ++ [quote])) = .ok ls) :
    ∃ held', Quoted quote held' (held ++ [quote]) ∧
      ls.map Lexeme.token = [.text (String.ofList held')] := by
  have hclass : Text.isBlank quote = false ∧ ¬Numeric.isDigit quote ∧ (quote == '-') = false ∧
      ¬Text.isNameStart quote ∧ quote ≠ '$' := by
    rcases hquote with rfl | rfl <;> decide
  obtain ⟨hblank, hdigit, hminus, hstart, hdollar⟩ := hclass
  obtain ⟨s, hs, position', more, hmore, hls⟩ := Expr.exists_scan_of_lexemes hblank h
  rw [Expr.scan, dif_neg hdigit, if_neg (by rw [hminus]; exact Bool.false_ne_true), if_neg hstart,
    if_neg hdollar, if_pos hquote] at hs
  split at hs
  · cases hs
  · next held' raw rest hsplit =>
    cases hs
    have hraw := Expr.quoted_of_splitText hsplit
    have happend := Expr.splitText_append hsplit
    obtain ⟨inner, rfl⟩ := suffix_of_quoted hraw
    -- the text ends at the quote at the end, since there is none before it
    rw [List.append_assoc, List.singleton_append] at happend
    obtain ⟨rfl, -, rfl⟩ :=
      (List.append_cons_inj_of_notMem hheld List.not_mem_nil).1 happend.symm
    rw [Expr.lexemes] at hmore
    cases hmore
    exact ⟨held', hraw, hls⟩

/-- A text in quotes, taken apart: the same quote stands at both ends and not in between, and what
is in between is kept as it is. -/
theorem eq_of_quoted? {t : String} (h : quoted? cs = some t) :
    ∃ (quote : Quote) (held : List Char), quote.char ∉ held ∧
      cs = quote.char :: (held ++ [quote.char]) ∧ t = String.ofList held := by
  unfold quoted? at h
  split at h
  · cases h
  · next first rest =>
    split at h
    · cases h
    · next last hlast =>
      obtain ⟨held, rfl⟩ := List.getLast?_eq_some_iff.1 hlast
      rw [List.dropLast_concat] at h
      split at h
      · next hquoted =>
        cases h
        obtain ⟨hquote, rfl, hheld⟩ := hquoted
        rw [Nesting.isQuote, Bool.or_eq_true, beq_iff_eq, beq_iff_eq] at hquote
        rw [Bool.not_eq_true', List.contains_eq_mem, decide_eq_false_iff_not] at hheld
        rcases hquote with rfl | rfl
        · exact ⟨.single, held, hheld, rfl, rfl⟩
        · exact ⟨.double, held, hheld, rfl, rfl⟩
      · cases h

/-! ### Both readers -/

/-- A source with a value in a context derives a tree that has it. -/
theorem derives_of_evaluate {source : String} {ctx : Context}
    (h : Expr.evaluate source ctx = .ok v) :
    ∃ e, Expr.Derives source e ∧ e.eval ctx = .ok v := by
  rw [Expr.evaluate] at h
  cases hread : Expr.read source with
  | error fragment =>
    rw [hread] at h
    cases h
  | ok e =>
    rw [hread] at h
    exact ⟨e, Expr.derives_of_read hread, h⟩

/-- A literal that has its value as an expression, where no name has a value, is a shared one. What
else reads as a numeral, such as `inf`, is a name to an expression, and a backslash begins an escape
there. -/
theorem sharedLiteral_of_evaluate (hliteral : literalOf? cs = some v)
    (h : Expr.evaluate (String.ofList cs) {} = .ok v) : SharedLiteral cs v := by
  obtain ⟨e, ⟨ls, htokens, he⟩, heval⟩ := derives_of_evaluate h
  rw [Expr.tokenize, String.toList_ofList] at htokens
  unfold literalOf? at hliteral
  split at hliteral
  · next heq =>
    cases hliteral
    obtain rfl : cs = "true".toList := String.toList_ofList.symm.trans (congrArg _ heq)
    exact .truth true
  · next heq =>
    cases hliteral
    obtain rfl : cs = "false".toList := String.toList_ofList.symm.trans (congrArg _ heq)
    exact .truth false
  · split at hliteral
    · next x hread =>
      cases hliteral
      have hnumber (d : Decimal) (hd : cs = d.chars) : SharedLiteral cs (.number x) := by
        subst hd
        obtain rfl := Option.some.inj ((readNumeral_chars d).symm.trans hread)
        exact .number d
      rcases Expr.isUnsigned_or_void htokens hread with (hw | ⟨w, hcs, hw⟩) | hvoid
      · exact hnumber ⟨false, ⟨cs, hw⟩⟩ rfl
      · exact hnumber ⟨true, ⟨w, hw⟩⟩ hcs
      · exact absurd heval (hvoid e he _)
    · obtain ⟨t, ht, rfl⟩ := Option.map_eq_some_iff.1 hliteral
      obtain ⟨quote, held, hheld, rfl, rfl⟩ := eq_of_quoted? ht
      obtain ⟨held', hquoted, hls⟩ := lexemes_quoted quote.char_cases hheld htokens
      -- the text holds what is written, so nothing in it is escaped
      rw [hls] at he
      rw [he.unique (.to_conditional (.text _)), Expr.eval] at heval
      obtain rfl : held' = held :=
        String.ofList_injective (Value.text.inj (Except.ok.inj heval))
      exact .text quote hheld (not_mem_of_quoted hquoted (by simp))

/-- **A literal means the same to both readers if it is a shared one.** Where the right term of a
comparison is taken for a literal, its text has the value of the literal in every context, as an
expression, exactly if it is one of the literals that expressions have as well. -/
theorem evaluate_literal_iff {expr left right : String} {op : CompareOp} {v : Value}
    (h : .comparison left op right (some v) ∈ (parse expr).constraints) :
    (∀ ctx, Expr.evaluate right ctx = .ok v) ↔ SharedLiteral right.toList v := by
  have hliteral := (literal_of_mem_parse h).symm
  have hright : String.ofList right.toList = right := String.ofList_toList
  constructor
  · intro heval
    exact sharedLiteral_of_evaluate hliteral (hright.symm ▸ heval {})
  · intro hshared ctx
    exact hright ▸ hshared.evaluate ctx

/-- The number of `n >= -2.5` is a literal to both. -/
theorem evaluate_literal_iff_negative :
    .comparison "n" .greaterEqual "-2.5" (some (.number (-2.5))) ∈ (parse "n >= -2.5").constraints ∧
      ∀ ctx, Expr.evaluate "-2.5" ctx = .ok (.number (-2.5)) := by
  have hmem : .comparison "n" .greaterEqual "-2.5" (some (.number (-2.5))) ∈
      (parse "n >= -2.5").constraints := by decide +kernel
  have hshared : SharedLiteral ['-', '2', '.', '5'] (.number (-2.5)) := by
    have hvalue : -Expr.numberValue ['2', '.', '5'] = -2.5 := by decide +kernel
    rw [← hvalue]
    exact .number ⟨true, ⟨['2', '.', '5'],
      ⟨['2'], ['5'], by decide, by decide, by decide, .inr ⟨by decide, rfl⟩⟩⟩⟩
  exact ⟨hmem, (evaluate_literal_iff hmem).2 hshared⟩

/-- **Not every literal has its value as an expression.** In the quotes of `name == 'a\b'` there are
three characters to the reader of constraints, and two in the expression. -/
theorem not_evaluate_literal : ¬∀ (expr left right : String) (op : CompareOp) (v : Value),
    .comparison left op right (some v) ∈ (parse expr).constraints →
    ∀ ctx, Expr.evaluate right ctx = .ok v := by
  intro h
  have heval := h "name == 'a\\b'" "name" "'a\\b'" .equal (.text "a\\b") (by decide +kernel) {}
  exact absurd heval (by decide +kernel)

end ProcedureChart.Constraint
