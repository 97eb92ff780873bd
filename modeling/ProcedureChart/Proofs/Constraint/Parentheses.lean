import ProcedureChart.Proofs.Constraint.Conjunction
import ProcedureChart.Proofs.Expr.Matching
import ProcedureChart.Proofs.Expr.Refinement
import ProcedureChart.Proofs.Expr.Spacing

/-!
# Parentheses around an expression

Parentheses around an expression say nothing, and mostly nothing changes in the conditions that are
read off it. Where a text is split, and where an operator is searched for, parentheses in quotes do
not count; where parentheses around a whole text are taken off, they do. So the ones around an
expression are taken off exactly if all its parentheses match, those in quotes included
(`stripParens_enclosed`). Otherwise everything stays inside of them and no condition is found
(`parseChars_of_not_matched`).
-/

namespace ProcedureChart

/-- The texts in quotes of a source. -/
def Expr.texts (source : String) : List String :=
  match Expr.tokenize source with
  | .error _ => []
  | .ok ls => ls.filterMap fun l =>
    match l.token with
    | .text s => some s
    | _ => none

namespace Constraint

open ProcedureChart.Expr (Token openBehind Balanced turnsOf Quoted Spells SpellsAll Piece written)

variable {c quote mark : Char} {cs w held raw : List Char} {t : Token} {operand : Bool} {n : Int}
  {depth : Int} {s : Nesting}

/-! ### Matching parentheses in a text -/

/-- How far a character leads into parentheses. -/
def parenTurn (c : Char) : Int := if c = '(' then 1 else if c = ')' then -1 else 0

/-- Whether the parentheses in a text match, those in quotes together with the other ones. -/
def Matched (cs : List Char) : Prop := Balanced (cs.map parenTurn)

instance (cs : List Char) : Decidable (Matched cs) :=
  inferInstanceAs (Decidable (Balanced (cs.map parenTurn)))

theorem parenTurn_eq_zero (h : c ≠ '(' ∧ c ≠ ')') : parenTurn c = 0 := by
  rw [parenTurn, if_neg h.1, if_neg h.2]

theorem matched_of_isFlat (h : w.all isFlat) : Matched w := by
  refine Expr.balanced_of_zero fun turn hturn => ?_
  obtain ⟨c, hc, rfl⟩ := List.mem_map.1 hturn
  exact parenTurn_eq_zero (parens_of_isFlat (List.all_eq_true.1 h c hc))

/-- The parenthesis behind a text closes the outermost of the open ones, if the text leaves no other
one open. -/
theorem closesAtEnd_concat (n : Nat) (cs : List Char) :
    closesAtEnd (n + 1) (cs ++ [')']) ↔ openBehind n (cs.map parenTurn) = some 0 := by
  induction cs generalizing n with
  | nil =>
    cases n with
    | zero => exact iff_of_true rfl rfl
    | succ n =>
      exact iff_of_false Bool.false_ne_true fun h =>
        Nat.succ_ne_zero n (Int.ofNat.inj (Option.some.inj h))
  | cons c cs ih =>
    rw [List.cons_append, closesAtEnd, List.map_cons]
    by_cases hopen : c = '('
    · subst hopen
      rw [if_pos rfl, ih, Expr.openBehind_cons (by exact Int.natCast_nonneg (n + 1))]
      rfl
    by_cases hclose : c = ')'
    · subst hclose
      rw [if_neg (by decide), if_pos rfl]
      cases n with
      | zero => exact iff_of_false (by simp) fun h => Option.some_ne_none _ h.symm
      | succ n =>
        have hturn : ((n + 1 : Nat) : Int) + parenTurn ')' = n := Int.add_sub_cancel n 1
        rw [if_neg (by omega), Nat.add_sub_cancel, ih, Expr.openBehind_cons (by omega), hturn]
    · have hturn : (n : Int) + parenTurn c = n := by
        rw [parenTurn_eq_zero ⟨hopen, hclose⟩, Int.add_zero]
      rw [if_neg hopen, if_neg hclose, ih, Expr.openBehind_cons (by omega), hturn]

/-! ### Taking parentheses off -/

/-- A text in parentheses. -/
def enclosed (cs : List Char) : List Char := '(' :: (cs ++ [')'])

theorem trim_enclosed (cs : List Char) : Text.trim (enclosed cs) = enclosed cs := by
  have hopen : Tight ['('] := tight_singleton (by decide)
  have hclose : Tight [')'] := tight_singleton (by decide)
  have htrim := (hopen.around cs hclose).trim_append ⟨[], rfl⟩ ⟨[], rfl⟩
  rwa [List.append_nil] at htrim

/-- The parentheses around a text are taken off if those in it match. -/
theorem stripParens_enclosed (cs : List Char) :
    stripParens (enclosed cs) = if Matched cs then stripParens (Text.trim cs) else enclosed cs := by
  have hclose : closesAtEnd 1 (cs ++ [')']) ↔ Matched cs := closesAtEnd_concat 0 cs
  rw [enclosed, stripParens, List.dropLast_concat]
  simp only [hclose]

theorem parseChars_of_matched (h : Matched cs) : parseChars (enclosed cs) = parseChars cs := by
  refine Layout.parseChars_of_strip ?_
  rw [trim_enclosed, stripParens_enclosed, if_pos h]

/-! ### The parentheses of tokens -/

/-- What parentheses and quotes there are in the characters of a token. -/
inductive Outline : Token → List Char → Prop where
  | flat {t : Token} {w : List Char} : t.turn = 0 → w.all isFlat → Outline t w
  | opening : Outline (.mark .openParen) ['(']
  | closing : Outline (.mark .closeParen) [')']
  | quoted {quote : Char} {held raw : List Char} :
      quote = '\'' ∨ quote = '"' → Quoted quote held raw →
      Outline (.text (String.ofList held)) (quote :: raw)

/-- All that the count of parentheses sees of a token: characters without any, a parenthesis, or a
text in quotes. -/
theorem outline_of_spells (h : Spells operand t w) : Outline t w := by
  have hword {w : List Char} (h : w.all Expr.isWordChar) : w.all isFlat :=
    List.all_eq_true.2 fun c hc => isFlat_of_isWordChar (List.all_eq_true.1 h c hc)
  cases h with
  | number hw => exact .flat rfl (hword hw.all_isWordChar)
  | negative _ hw => exact .flat rfl (Bool.and_eq_true_iff.2 ⟨by decide, hword hw.all_isWordChar⟩)
  | name hc hw =>
    refine .flat rfl (hword (Expr.all_isWordChar_of_isNameChar (Bool.and_eq_true_iff.2 ⟨?_, hw⟩)))
    exact Text.isNameChar_of_isNameStart hc
  | state _ hw =>
    exact .flat rfl (Bool.and_eq_true_iff.2
      ⟨by decide, hword (Expr.all_isWordChar_of_isNameChar hw)⟩)
  | text hquote hraw => exact .quoted hquote hraw
  | @mark m =>
    cases m with
    | openParen => exact .opening
    | closeParen => exact .closing
    | _ => exact .flat rfl (by decide)

/-- A quoted text has the parentheses that it holds: an escape adds a backslash, which counts
nothing, and neither do the quotes. -/
theorem openBehind_quoted (hquote : quote = '\'' ∨ quote = '"') (h : Quoted quote held raw)
    (hn : 0 ≤ n) : openBehind n (raw.map parenTurn) = openBehind n (held.map parenTurn) := by
  have hcons {c : Char} {raw held : List Char} {n : Int}
      (ih : ∀ {n : Int}, 0 ≤ n →
        openBehind n (raw.map parenTurn) = openBehind n (held.map parenTurn)) :
      openBehind n ((c :: raw).map parenTurn) = openBehind n ((c :: held).map parenTurn) := by
    rw [List.map_cons, List.map_cons, openBehind, openBehind]
    split
    · rfl
    · next hturn => exact ih (Int.not_lt.1 hturn)
  have hzero {c : Char} {us : List Int} {n : Int} (hc : parenTurn c = 0) (hn : 0 ≤ n) :
      openBehind n (parenTurn c :: us) = openBehind n us := by
    rw [hc, Expr.openBehind_cons (by omega), Int.add_zero]
  induction h generalizing n with
  | close => exact hzero (by rcases hquote with rfl | rfl <;> rfl) hn
  | escaped _ ih => exact (hzero rfl hn).trans (hcons ih)
  | plain _ _ _ ih => exact hcons ih

/-- The characters of a token lead into parentheses as far as the token does, provided that a text
has matching ones. The token of a text counts nothing, while its characters are all counted. -/
theorem openBehind_outline {us : List Int} (h : Outline t w)
    (ht : ∀ s, t = .text s → Matched s.toList) (hn : 0 ≤ n) :
    openBehind n (w.map parenTurn ++ us) = openBehind n (t.turn :: us) := by
  have hflat {w : List Char} (hw : Matched w) :
      openBehind n (w.map parenTurn ++ us) = openBehind n (0 :: us) := by
    rw [hw.behind hn, Expr.openBehind_cons (by omega), Int.add_zero]
  cases h with
  | flat hturn hw => rw [hflat (matched_of_isFlat hw), hturn]
  | opening | closing => rfl
  | @quoted quote held raw hquote hraw =>
    have hheld : Matched held := by
      have hheld := ht _ rfl
      rwa [String.toList_ofList] at hheld
    have hturn : parenTurn quote = 0 := by rcases hquote with rfl | rfl <;> rfl
    refine hflat ?_
    rw [Matched, List.map_cons, hturn, Expr.balanced_cons_zero]
    exact (openBehind_quoted hquote hraw (Int.le_refl 0)).trans hheld

/-- So do the characters of pieces, one piece after the other. The blanks between them count
nothing. -/
theorem openBehind_written {pieces : List Piece}
    (h : SpellsAll operand (pieces.map Piece.bare))
    (htexts : ∀ p ∈ pieces, ∀ s, p.token = .text s → Matched s.toList) (hn : 0 ≤ n) :
    openBehind n ((written pieces).map parenTurn) =
      openBehind n (turnsOf (pieces.map Piece.token)) := by
  induction pieces generalizing operand n with
  | nil => rfl
  | cons p pieces ih =>
    obtain ⟨hp, hpieces⟩ := h
    obtain ⟨hptext, htexts⟩ := List.forall_mem_cons.1 htexts
    have hgap : Matched p.gap := matched_of_isFlat (all_isFlat_of_all_isBlank p.gap_blank)
    rw [Expr.written_cons, List.map_append, List.map_append,
      openBehind_outline (outline_of_spells hp) hptext hn]
    change openBehind n (p.token.turn :: _) = openBehind n (p.token.turn :: _)
    rw [openBehind, openBehind]
    split
    · rfl
    · next hturn =>
      rw [hgap.behind (Int.not_lt.1 hturn)]
      exact ih hpieces htexts (Int.not_lt.1 hturn)

/-! ### Expressions -/

/-- The characters of an expression: blanks, and pieces whose tokens are balanced. The texts among
the tokens are those of the expression. -/
theorem pieces_of_read {e : String} {tree : Expr} (h : Expr.read e = .ok tree) :
    ∃ front pieces, front.all Text.isBlank ∧ e.toList = front ++ written pieces ∧
      SpellsAll false (pieces.map Piece.bare) ∧
      Balanced (turnsOf (pieces.map Piece.token)) ∧
      ∀ p ∈ pieces, ∀ s, p.token = .text s → s ∈ Expr.texts e := by
  obtain ⟨ls, htokens, hphrase⟩ := Expr.derives_of_read h
  obtain ⟨front, pieces, hfront, he, hls, hspells⟩ := Expr.exists_pieces_of_lexemes htokens
  have hmap : ls.map Expr.Lexeme.token = pieces.map Piece.token := by
    rw [hls, Expr.map_token_place]
  rw [hmap] at hphrase
  refine ⟨front, pieces, hfront, he, hspells, Expr.balanced_phrase hphrase, fun p hp s hs => ?_⟩
  have hmem : Token.text s ∈ ls.map Expr.Lexeme.token := hmap ▸ hs ▸ List.mem_map_of_mem hp
  obtain ⟨l, hl, hl'⟩ := List.mem_map.1 hmem
  rw [Expr.texts, htokens]
  exact List.mem_filterMap.2 ⟨l, hl, by rw [hl']⟩

/-- The parentheses in an expression match if those in its texts do. -/
theorem matched_of_texts {e : String} {tree : Expr} (h : Expr.read e = .ok tree)
    (htexts : ∀ s ∈ Expr.texts e, Matched s.toList) : Matched e.toList := by
  obtain ⟨front, pieces, hfront, he, hspells, hbalanced, hmem⟩ := pieces_of_read h
  have hwritten : Matched (written pieces) :=
    (openBehind_written hspells (fun p hp s hs => htexts s (hmem p hp s hs))
      (Int.le_refl 0)).trans hbalanced
  rw [he, Matched, List.map_append]
  exact (matched_of_isFlat (all_isFlat_of_all_isBlank hfront)).append hwritten

/-! ### Texts that stay inside -/

/-- Whether a text leads from a depth to another one, in no quotes, and nothing in it is outside. -/
structure Hidden (depth depth' : Int) (w : List Char) : Prop where
  step : w.foldl Nesting.step ⟨depth, none⟩ = ⟨depth', none⟩
  quiet (mark : Char) : Quiet mark ⟨depth, none⟩ w

theorem Hidden.append {depth' depth'' : Int} {v w : List Char} (hv : Hidden depth depth' v)
    (hw : Hidden depth' depth'' w) : Hidden depth depth'' (v ++ w) where
  step := by rw [List.foldl_append, hv.step, hw.step]
  quiet mark := by
    rw [quiet_append, hv.step]
    exact ⟨hv.quiet mark, hw.quiet mark⟩

/-- Inside of parentheses nothing is outside. -/
theorem not_outside (h : 0 < depth) (c : Char) : ¬Nesting.outside ⟨depth, none⟩ c := by
  intro houtside
  simp only [Nesting.outside, Bool.and_eq_true, Bool.not_eq_true', bne_iff_ne, beq_iff_eq]
    at houtside
  obtain ⟨⟨⟨-, hquote⟩, hdepth⟩, hclose⟩ := houtside
  by_cases hopen : c = '('
  · subst hopen
    have hdepth : depth + 1 = 0 := hdepth
    omega
  · rw [Nesting.step, hquote, if_neg Bool.false_ne_true, if_neg hopen, if_neg hclose] at hdepth
    exact Int.ne_of_gt h hdepth

theorem hidden_of_isFlat (h : w.all isFlat) (hdepth : 0 < depth) : Hidden depth depth w where
  step := foldl_step_of_flat h
  quiet mark := by
    induction w with
    | nil => exact trivial
    | cons c w ih =>
      obtain ⟨hc, hw⟩ := Bool.and_eq_true_iff.1 (List.all_cons ▸ h)
      refine ⟨fun h => not_outside hdepth c h.1, ?_⟩
      rw [step_of_isFlat hc]
      exact ih hw

/-- A token without escapes keeps its characters inside. With an escape a quote could end the text
early for this reader, which knows of no escapes. -/
theorem hidden_outline (h : Outline t w) (hbackslash : '\\' ∉ w) (hdepth : 0 < depth) :
    Hidden depth (depth + t.turn) w := by
  cases h with
  | flat hturn hw =>
    rw [hturn, Int.add_zero]
    exact hidden_of_isFlat hw hdepth
  | opening | closing => exact ⟨rfl, fun mark => ⟨fun h => not_outside hdepth _ h.1, trivial⟩⟩
  | @quoted quote held raw hquote hraw =>
    obtain ⟨rfl, hheld⟩ := hraw.eq_append (List.not_mem_of_not_mem_cons hbackslash)
    have hclose : Nesting.step ⟨depth, some quote⟩ quote = ⟨depth, none⟩ := if_pos rfl
    refine ⟨?_, fun mark => ⟨fun h => not_outside hdepth _ h.1, ?_⟩⟩
    · rw [List.foldl_cons, List.foldl_append, step_of_quote hquote, foldl_step_of_quoted hheld,
        List.foldl_cons, hclose]
      exact congrArg (Nesting.mk · none) (Int.add_zero depth).symm
    · rw [step_of_quote hquote, quiet_append, foldl_step_of_quoted hheld]
      exact ⟨quiet_of_quoted hheld, fun h => Bool.false_ne_true h.1, trivial⟩

/-- So do pieces without escapes that close no more parentheses than are open, since one stays
inside of the outer parenthesis all along. -/
theorem hidden_written {k : Int} {pieces : List Piece}
    (h : SpellsAll operand (pieces.map Piece.bare)) (hbackslash : '\\' ∉ written pieces)
    (hn : 0 ≤ n) (hturns : openBehind n (turnsOf (pieces.map Piece.token)) = some k) :
    Hidden (n + 1) (k + 1) (written pieces) := by
  induction pieces generalizing operand n with
  | nil =>
    obtain rfl := Option.some.inj hturns
    exact ⟨rfl, fun _ => trivial⟩
  | cons p pieces ih =>
    obtain ⟨hp, hpieces⟩ := h
    rw [Expr.written_cons, List.mem_append, not_or, List.mem_append, not_or] at hbackslash
    rw [List.map_cons, turnsOf, List.map_cons, openBehind] at hturns
    split at hturns
    · cases hturns
    · next hturn =>
      have hslice := hidden_outline (outline_of_spells hp) hbackslash.1 (Int.lt_add_one_of_le hn)
      rw [Int.add_right_comm] at hslice
      have hgap := hidden_of_isFlat (all_isFlat_of_all_isBlank p.gap_blank)
        (Int.lt_add_one_of_le (Int.not_lt.1 hturn))
      rw [Expr.written_cons]
      exact hslice.append (hgap.append (ih hpieces hbackslash.2.2 (Int.not_lt.1 hturn) hturns))

/-- Nothing is found in a text in parentheses that stay where they are and keep all of it inside.
There is no operator and no comparison outside, and with the parentheses around it it is no word. -/
theorem parseChars_of_not_matched (h : Hidden 1 1 cs) (hmatched : ¬Matched cs) :
    parseChars (enclosed cs) = {} := by
  have hmarks : operatorMarks.all fun mark => mark ∉ ['(', ')'] := by decide
  have hquiet : ∀ mark ∈ operatorMarks, Quiet mark {} (enclosed cs) := fun mark hmark =>
    Nested.quiet_parens (of_decide_eq_true (List.all_eq_true.1 hmarks mark hmark)) h.step
      (h.quiet mark)
  have hstrip : stripParens (Text.trim (enclosed cs)) = enclosed cs := by
    rw [trim_enclosed, stripParens_enclosed, if_neg hmatched]
  have hsplit {mark : Char} (hmark : mark ∈ operatorMarks) :
      ¬1 < (split mark (enclosed cs)).length := by
    rw [split_of_quiet (hquiet mark hmark)]
    exact Nat.lt_irrefl 1
  have htruth : truthOf? (enclosed cs) = none := truthOf?_eq_none List.mem_cons_self (by decide)
  have hzero : zeroTest? (enclosed cs) = none := by
    refine Option.eq_none_iff_forall_ne_some.2 fun test htest => ?_
    have hlast := getLast?_of_zeroTest? htest
    rw [enclosed, ← List.cons_append, List.getLast?_concat] at hlast
    exact absurd hlast (by decide)
  have hparts : comparisonParts? (enclosed cs) = none := by
    refine List.findSome?_eq_none_iff.2 fun op _ => ?_
    have hcut : cut? op.symbol.toList (enclosed cs) = none := by
      cases op <;> exact cutFrom?_eq_none (hquiet _ (by decide))
    rw [hcut]
    rfl
  have hsingle : singleOf? (enclosed cs) = none := by
    rw [singleOf?, if_neg (not_or.2 ⟨hsplit (by decide), hsplit (by decide)⟩), divisibilityOf?,
      hzero, comparisonOf?, hparts]
    rfl
  rw [parseChars, hstrip, htruth, hsingle, Option.or_none]
  dsimp only
  rw [dif_neg (hsplit (by decide)), dif_neg (hsplit (by decide))]

/-! ### Redundant parentheses -/

theorem toList_parens (e : String) : ("(" ++ e ++ ")").toList = enclosed e.toList := by
  rw [String.toList_append, String.toList_append]
  rfl

/-- **Parentheses around an expression** make no difference to what is read off it if the
parentheses in each of its texts match. If there is no backslash in it, nothing is read unless all
parentheses in it match, those in texts together with the other ones. -/
theorem parse_parens {e : String} {tree : Expr} (h : Expr.read e = .ok tree) :
    ((∀ s ∈ Expr.texts e, Matched s.toList) → parse ("(" ++ e ++ ")") = parse e) ∧
      ('\\' ∉ e.toList →
        parse ("(" ++ e ++ ")") = if Matched e.toList then parse e else {}) := by
  have hmatched : Matched e.toList → parse ("(" ++ e ++ ")") = parse e := fun hmatched => by
    rw [parse, toList_parens, parseChars_of_matched hmatched, parse]
  refine ⟨fun htexts => hmatched (matched_of_texts h htexts), fun hbackslash => ?_⟩
  split
  · next hyes => exact hmatched hyes
  · next hno =>
    obtain ⟨front, pieces, hfront, he, hspells, hbalanced, -⟩ := pieces_of_read h
    have hwritten : '\\' ∉ written pieces := fun hmem =>
      hbackslash (he ▸ List.mem_append_right front hmem)
    have hhidden := (hidden_of_isFlat (all_isFlat_of_all_isBlank hfront) Int.one_pos).append
      (hidden_written hspells hwritten (Int.le_refl 0) hbalanced)
    rw [parse, toList_parens]
    exact parseChars_of_not_matched (he ▸ hhidden) hno

theorem exists_of_isOk {e : String} (h : (Expr.read e).isOk) : ∃ tree, Expr.read e = .ok tree := by
  cases hread : Expr.read e with
  | error fragment =>
    rw [hread] at h
    cases h
  | ok tree => exact ⟨tree, rfl⟩

/-- A text with parentheses that match and a conjunction, beside a disjunction. -/
theorem parse_parens_label :
    (Expr.read "label == '(a) && b' || n > 5").isOk ∧
      (parse "label == '(a) && b' || n > 5").constraints.length = 2 ∧
      parse "(label == '(a) && b' || n > 5)" = parse "label == '(a) && b' || n > 5" := by
  have hok : (Expr.read "label == '(a) && b' || n > 5").isOk := by decide +kernel
  obtain ⟨tree, hread⟩ := exists_of_isOk hok
  exact ⟨hok, by decide +kernel, (parse_parens hread).1 (by decide +kernel)⟩

/-- A parenthesis in a text is enough for the ones around the expression to be left where they
are. -/
theorem not_parse_parens : ¬∀ (e : String) (tree : Expr), Expr.read e = .ok tree →
    parse ("(" ++ e ++ ")") = parse e := by
  intro h
  obtain ⟨tree, hread⟩ : ∃ tree, Expr.read "n == '('" = .ok tree :=
    exists_of_isOk (by decide +kernel)
  exact absurd (h _ tree hread) (by decide +kernel)

end Constraint

end ProcedureChart
