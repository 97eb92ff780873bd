import ProcedureChart.Proofs.Constraint.Layout
import ProcedureChart.Proofs.Expr.Scanning

/-!
# Reading atoms

The text of an atom is read as its constraint (`Atom.single`), and this becomes its filter unless it
divides by 0 (`Atom.ofConstraint?_constraint`). The names, literals and blanks of an atom are inert:
none of the operators that are searched for stands outside of the quotes in them, so an operator is
found where it was written, and no other one is found before it.
-/

namespace ProcedureChart.Constraint

open ProcedureChart.Expr (Token Mark Shape Quote)

variable {c : Char} {cs l r v w : List Char} {t : Token} {s : Nesting} {marks : List Char}

/-! ### Inert texts -/

/-- Whether some marks stand nowhere outside in a text, nor any parentheses, so that behind it the
nesting is what it was before. -/
structure Inert (marks : List Char) (w : List Char) : Prop where
  step (depth : Int) : w.foldl Nesting.step ⟨depth, none⟩ = ⟨depth, none⟩
  quiet (depth : Int) : ∀ mark ∈ marks, Quiet mark ⟨depth, none⟩ w
  parens : ∀ c ∈ w, c ≠ '(' ∧ c ≠ ')'

/-- The characters that operators begin with. -/
def operatorMarks : List Char := ['&', '|', '=', '!', '<', '>']

/-- Inert texts one behind the other are inert, since the first one leaves the nesting as it was. -/
theorem Inert.append (hv : Inert marks v) (hw : Inert marks w) : Inert marks (v ++ w) where
  step depth := by rw [List.foldl_append, hv.step, hw.step]
  quiet depth mark hmark := by
    rw [quiet_append, hv.step]
    exact ⟨hv.quiet depth mark hmark, hw.quiet depth mark hmark⟩
  parens c hc := (List.mem_append.1 hc).elim (hv.parens c) (hw.parens c)

/-- A text that is inert for some marks is inert for fewer of them. -/
theorem Inert.mono {fewer : List Char} (h : Inert marks w) (hle : fewer ⊆ marks) :
    Inert fewer w :=
  { h with quiet := fun depth mark hmark => h.quiet depth mark (hle hmark) }

/-- Characters of a class that has no marks, no quotes and no parentheses are inert. -/
theorem inert_of_class {p : Char → Bool} (hp : (marks ++ ['\'', '"', '(', ')']).all fun c => !p c)
    (h : w.all p) : Inert marks w := by
  rw [List.all_append, Bool.and_eq_true] at hp
  have hflat : ∀ c ∈ w, isFlat c := fun c hc => isFlat_of_class hp.2 (List.all_eq_true.1 h c hc)
  refine ⟨fun depth => foldl_step_of_flat (List.all_eq_true.2 hflat), fun depth mark hmark => ?_,
    fun c hc => parens_of_isFlat (hflat c hc)⟩
  have hnot : p mark = false := (Bool.not_eq_true' _).mp (List.all_eq_true.1 hp.1 mark hmark)
  exact quiet_of_not_mem (not_mem_of_class hnot h)

theorem Blanks.inert (b : Blanks) : Inert operatorMarks b.1 := inert_of_class (by decide) b.2

/-- A word or a text in quotes is inert: a word has no mark and no parenthesis at all, and what is
between quotes is not looked at. -/
theorem inert_of_shape (h : Shape t w) (ht : ∀ m, t ≠ .mark m) : Inert operatorMarks w := by
  cases h with
  | word _ _ _ hall => exact inert_of_class (by decide) hall
  | @text quote held hquote hheld hopen hclose =>
    have hshape : Shape (.text (String.ofList held)) (quote :: (held ++ [quote])) :=
      .text hquote hheld hopen hclose
    refine ⟨fun depth => ?_, fun depth mark hmark => ?_, parens_of_shape hshape rfl⟩
    · rw [foldl_step_of_shape hshape]
      exact congrArg (Nesting.mk · none) (Int.add_zero depth)
    · have hne : ¬(quote = mark) := by
        rintro rfl
        rcases hquote with rfl | rfl <;> exact absurd hmark (by decide)
      rw [Quiet, step_of_quote hquote, quiet_append, foldl_step_of_quoted hheld]
      exact ⟨fun h => hne h.2, quiet_of_quoted hheld, fun h => Bool.false_ne_true h.1, trivial⟩
  | mark => exact absurd rfl (ht _)

/-- No equals sign begins an inert text. -/
theorem Inert.head?_ne (h : Inert operatorMarks w) : w.head? ≠ some '=' := by
  intro hhead
  obtain ⟨cs, rfl⟩ := List.head?_eq_some_iff.1 hhead
  exact (h.quiet 0 '=' (by decide)).1 (by decide)

theorem PlainName.inert (n : PlainName) : Inert operatorMarks n.chars :=
  inert_of_shape n.shape nofun

/-- The minus sign in front of a decimal is none of the marks that are searched for. -/
theorem Decimal.inert (d : Decimal) : Inert operatorMarks d.chars :=
  inert_of_shape d.shape nofun

theorem Literal.inert (l : Literal) : Inert operatorMarks l.chars :=
  inert_of_shape l.shape l.token_ne_mark

/-- An operator has nothing to do with conjunctions and disjunctions. -/
theorem CompareOp.inert (op : CompareOp) : Inert ['&', '|'] op.symbol.toList := by
  cases op <;>
    exact inert_of_class (p := fun c => ['=', '!', '<', '>'].contains c) (by decide) (by decide)

/-- An atom is split by no conjunction and by no disjunction. Its own operator is a mark outside of
quotes, but neither of these two. -/
theorem Atom.inert (a : Atom) : Inert ['&', '|'] a.chars := by
  have hsub : ['&', '|'] ⊆ operatorMarks := by decide
  cases a with
  | comparison field before op behind literal =>
    exact (field.inert.mono hsub).append <| (before.inert.mono hsub).append <|
      (CompareOp.inert op).append <| (behind.inert.mono hsub).append (literal.inert.mono hsub)
  | divisibility field before behind divisor beforeTest divisible behindTest =>
    have hpercent : Inert ['&', '|'] ['%'] :=
      inert_of_class (p := fun c => c == '%') (by decide) (by decide)
    have hzero : Inert ['&', '|'] ['0'] :=
      inert_of_class (p := Expr.isWordChar) (by decide) (by decide)
    exact (field.inert.mono hsub).append <| (before.inert.mono hsub).append <|
      hpercent.append <| (behind.inert.mono hsub).append <| (divisor.inert.mono hsub).append <|
      (beforeTest.inert.mono hsub).append <| (CompareOp.inert _).append <|
      (behindTest.inert.mono hsub).append hzero

/-! ### Blanks around a text -/

/-- Whether a text neither begins nor ends with a blank. -/
structure Tight (w : List Char) : Prop where
  ne_nil : w ≠ []
  front : ∀ c ∈ w.head?, Text.isBlank c = false
  back : ∀ c ∈ w.getLast?, Text.isBlank c = false

theorem tight_singleton (h : Text.isBlank c = false) : Tight [c] where
  ne_nil := List.cons_ne_nil _ _
  front := by
    rintro _ ⟨⟩
    exact h
  back := by
    rintro _ ⟨⟩
    exact h

/-- A text that begins and ends with tight texts is tight, whatever stands between them. -/
theorem Tight.around (hv : Tight v) (inner : List Char) (hw : Tight w) :
    Tight (v ++ (inner ++ w)) where
  ne_nil := List.append_ne_nil_of_left_ne_nil hv.ne_nil _
  front := by
    rw [List.head?_append_of_ne_nil _ hv.ne_nil]
    exact hv.front
  back := by
    rw [List.getLast?_append_of_ne_nil _ (List.append_ne_nil_of_right_ne_nil _ hw.ne_nil),
      List.getLast?_append_of_ne_nil _ hw.ne_nil]
    exact hw.back

/-- A token as it is spelled is tight: a word has no blanks, a text has its quotes at both ends, and
a mark is a mark. -/
theorem tight_of_shape (h : Shape t w) : Tight w where
  ne_nil := h.ne_nil
  front := by
    intro c hc
    obtain ⟨cs, rfl⟩ := List.head?_eq_some_iff.1 hc
    generalize hw : c :: cs = w at h
    cases h with
    | word _ _ _ hall =>
      refine Expr.isBlank_of_isWordChar (List.all_eq_true.1 hall c ?_)
      exact hw ▸ List.mem_cons_self
    | text hquote =>
      rw [(List.cons.inj hw).1]
      rcases hquote with rfl | rfl <;> decide
    | @mark m => exact (m.head_spelling c (hw ▸ rfl)).1
  back := by
    intro c hc
    obtain ⟨cs, rfl⟩ := List.getLast?_eq_some_iff.1 hc
    exact h.last.1

/-- Blanks in front are trimmed off, up to a text that does not begin with one. -/
theorem trimFront_append {blanks : List Char} (hblanks : blanks.all Text.isBlank)
    (hw : ∀ c ∈ w.head?, Text.isBlank c = false) : Text.trimFront (blanks ++ w) = w := by
  rw [Text.trimFront, List.dropWhile_append_of_pos (List.all_eq_true.1 hblanks)]
  cases w with
  | nil => rfl
  | cons c w => exact List.dropWhile_cons_of_neg (Bool.eq_false_iff.1 (hw c rfl))

/-- Blanks behind are trimmed off, up to a text that does not end with one. This is the front of the
reversed texts. -/
theorem trimBack_append {blanks : List Char} (hblanks : blanks.all Text.isBlank)
    (hw : ∀ c ∈ w.getLast?, Text.isBlank c = false) : Text.trimBack (w ++ blanks) = w := by
  have hreverse : Text.trimFront (blanks.reverse ++ w.reverse) = w.reverse :=
    trimFront_append (by rwa [List.all_reverse]) (by rwa [List.head?_reverse])
  rw [Text.trimFront] at hreverse
  rw [Text.trimBack, List.reverse_append, hreverse, List.reverse_reverse]

/-- A tight text is what is left of itself between blanks. -/
theorem Tight.trim_append (h : Tight w) (front back : Blanks) :
    Text.trim (front.1 ++ (w ++ back.1)) = w := by
  have hfront : ∀ c ∈ (w ++ back.1).head?, Text.isBlank c = false := by
    rw [List.head?_append_of_ne_nil _ h.ne_nil]
    exact h.front
  rw [Text.trim, trimFront_append front.2 hfront, trimBack_append back.2 h.back]

/-! ### Cutting at an operator -/

/-- A text with nothing to cut at in it is passed over. The search goes on behind it with the
nesting that it leaves, and it ends up in the part in front of the operator. -/
theorem cutFrom?_append {first : Char} {more : List Char} (hw : Quiet first s w) :
    cutFrom? (first :: more) s (w ++ r) =
      (cutFrom? (first :: more) (w.foldl .step s) r).map fun parts => (w ++ parts.1, parts.2) := by
  induction w generalizing s with
  | nil => exact Option.map_id'.symm
  | cons c w ih =>
    have hnot : ¬(s.outside c ∧ (first :: more).isPrefixOf (c :: (w ++ r))) := by
      rintro ⟨houtside, hbegin⟩
      obtain ⟨rfl, -⟩ := List.cons_prefix_cons.1 (List.isPrefixOf_iff_prefix.1 hbegin)
      exact hw.1 ⟨houtside, rfl⟩
    rw [List.cons_append, cutFrom?, if_neg hnot, ih hw.2, Option.map_map]
    rfl

/-- No operator is found in a text in which its first character stands nowhere outside. -/
theorem cutFrom?_eq_none {first : Char} {more : List Char} (hw : Quiet first s w) :
    cutFrom? (first :: more) s w = none := by
  have happend : cutFrom? (first :: more) s (w ++ []) = none := by rw [cutFrom?_append hw]; rfl
  rwa [List.append_nil] at happend

/-- No operator stands outside in an inert text. -/
theorem Inert.cut?_eq_none (hw : Inert operatorMarks w) (op : CompareOp) :
    cut? op.symbol.toList w = none := by
  cases op <;> exact cutFrom?_eq_none (hw.quiet 0 _ (by decide))

/-- An inert text is no comparison. -/
theorem Inert.comparisonParts?_eq_none (hw : Inert operatorMarks w) :
    comparisonParts? w = none := by
  refine List.findSome?_eq_none_iff.2 fun op _ => ?_
  rw [hw.cut?_eq_none]
  rfl

/-- Nothing is found if the operator does not begin here and is not found from the next character
on. -/
theorem cutFrom?_cons_eq_none {operator : List Char} (hc : ¬operator <+: c :: cs)
    (hcs : cutFrom? operator (s.step c) cs = none) : cutFrom? operator s (c :: cs) = none := by
  rw [cutFrom?, if_neg fun h => hc (List.isPrefixOf_iff_prefix.1 h.2), hcs]
  rfl

/-- An operator in front of an inert text hides none that is searched for before it. The marks
overlap, as in `<=` and `<`, but the longer ones are searched for first. -/
theorem cutFrom?_symbol_eq_none {op op' : CompareOp} (hr : Inert operatorMarks r)
    (hbefore : op' ∈ CompareOp.all.takeWhile (· ≠ op)) :
    cutFrom? op'.symbol.toList ⟨0, none⟩ (op.symbol.toList ++ r) = none := by
  have hnone : cutFrom? op'.symbol.toList ⟨0, none⟩ r = none := hr.cut?_eq_none op'
  have hequals : ¬['='] <+: r := by
    rintro ⟨more, rfl⟩
    exact hr.head?_ne rfl
  rw [CompareOp.toList_symbol] at hnone ⊢
  rw [CompareOp.toList_symbol]
  -- the operator has one character or two, and the other one begins at neither of them
  cases op <;> cases op' <;> first
    | exact absurd hbefore (by decide)
    | exact cutFrom?_cons_eq_none
        (by simp [CompareOp.operator, Expr.Operator.mark, Mark.spelling, hequals]) hnone
    | exact cutFrom?_cons_eq_none
        (by simp [CompareOp.operator, Expr.Operator.mark, Mark.spelling])
        (cutFrom?_cons_eq_none
          (by simp [CompareOp.operator, Expr.Operator.mark, Mark.spelling, hequals]) hnone)

/-- The operator of a comparison is found where it was written: none that is searched for before it
is in the text, and the terms are inert. -/
theorem comparisonParts?_append (op : CompareOp) (hl : Inert operatorMarks l)
    (hr : Inert operatorMarks r) :
    comparisonParts? (l ++ (op.symbol.toList ++ r)) = some (op, l, r) := by
  have hcut (op' : CompareOp) : cut? op'.symbol.toList (l ++ (op.symbol.toList ++ r)) =
      (cutFrom? op'.symbol.toList ⟨0, none⟩ (op.symbol.toList ++ r)).map
        fun parts => (l ++ parts.1, parts.2) := by
    have hstep := hl.step 0
    cases op' <;>
      exact (cutFrom?_append (hl.quiet 0 _ (by decide))).trans (by rw [hstep]; rfl)
  have hhere : cutFrom? op.symbol.toList ⟨0, none⟩ (op.symbol.toList ++ r) = some ([], r) := by
    cases op <;> exact if_pos ⟨rfl, rfl⟩
  have hall : CompareOp.all = CompareOp.all.takeWhile (· ≠ op) ++
      op :: (CompareOp.all.dropWhile (· ≠ op)).tail := by
    cases op <;> rfl
  refine List.findSome?_eq_some_iff.2 ⟨_, op, _, hall, ?_, fun op' hop' => ?_⟩
  · rw [hcut, hhere, Option.map_some, List.append_nil]
    rfl
  · rw [hcut, cutFrom?_symbol_eq_none hr hop']
    rfl

/-! ### Tests for zero -/

/-- A test for zero is found at the end of a text, with blanks or without them between its operator
and the zero. -/
theorem zeroTest?_append (divisible : Bool) (blanks : Blanks) :
    zeroTest? (l ++ ((zeroOp divisible).symbol.toList ++ (blanks.1 ++ ['0']))) =
      some (l, divisible) := by
  obtain ⟨blanks, hblanks⟩ := blanks
  have hdrop (rest : List Char) : (blanks.reverse ++ '=' :: rest).dropWhile Text.isBlank =
      '=' :: rest :=
    trimFront_append (by rwa [List.all_reverse]) (by rintro _ ⟨⟩; decide)
  rw [CompareOp.toList_symbol, zeroTest?]
  cases divisible <;>
    simp [zeroOp, CompareOp.operator, Expr.Operator.mark, Mark.spelling, hdrop]

/-- A text that ends with a zero test ends with a zero. -/
theorem getLast?_of_zeroTest? {divisible : Bool} (h : zeroTest? cs = some (l, divisible)) :
    cs.getLast? = some '0' := by
  obtain ⟨blanks, -, rfl⟩ := eq_of_zeroTest? h
  rw [← List.append_assoc, ← List.append_assoc, List.getLast?_concat]

theorem contains_eq_false (h : c ∉ w) : w.contains c = false := by
  rw [List.contains_eq_mem, decide_eq_false h]

/-- What has no percent sign in it belongs to the dividend, whose characters are kept in reverse. -/
theorem dividend?_append {before : List Char} (hl : '%' ∉ l) :
    dividend? before (l ++ r) = dividend? (l.reverse ++ before) r := by
  induction l generalizing before with
  | nil => rfl
  | cons c l ih =>
    have hc : ¬(c = '%' ∧ !before.isEmpty) := fun h => List.ne_of_not_mem_cons hl h.1.symm
    rw [List.cons_append, dividend?, if_neg hc, ih (List.not_mem_of_not_mem_cons hl),
      List.reverse_cons, List.append_assoc]
    rfl

/-- The terms of a remainder are found around the percent sign, without the blanks that stand on
either side of it. -/
theorem dividend?_remainder (n : PlainName) (before behind : Blanks) (d : Decimal)
    (back : Blanks) :
    dividend? [] (n.chars ++ (before.1 ++ '%' :: (behind.1 ++ (d.chars ++ back.1)))) =
      some (n.chars, d.chars) := by
  have hn := tight_of_shape n.shape
  have hd := tight_of_shape d.shape
  have hpercent : '%' ∉ n.chars ++ before.1 := by
    rw [List.mem_append]
    exact not_or.2 ⟨not_mem_of_class (by decide) n.all_isWordChar,
      not_mem_of_class (by decide) before.2⟩
  have hfilled : ¬(n.chars ++ before.1).reverse.isEmpty := by
    rw [List.isEmpty_reverse, List.isEmpty_iff]
    exact List.append_ne_nil_of_left_ne_nil hn.ne_nil _
  have hbreaks : ¬(n.chars.contains '\n' ∨ d.chars.isEmpty) := by
    rw [contains_eq_false (not_mem_of_class (by decide) n.all_isWordChar), List.isEmpty_iff]
    exact not_or.2 ⟨Bool.false_ne_true, hd.ne_nil⟩
  have hbreak : ¬d.chars.contains '\n' := by
    rw [contains_eq_false (not_mem_of_class (by decide) d.all_isWordChar)]
    exact Bool.false_ne_true
  rw [← List.append_assoc, dividend?_append hpercent, List.append_nil, dividend?,
    if_pos ⟨rfl, by rw [Bool.eq_false_iff.2 hfilled]; rfl⟩, List.reverse_reverse,
    trimBack_append before.2 hn.back, hd.trim_append behind back]
  dsimp only
  rw [if_neg hbreaks, if_neg hbreak]

/-! ### Literals -/

/-- A decimal as it is written is read as its value. Both readers of numbers read the digits alike,
and they take the sign in different ways. -/
theorem readNumeral_chars (d : Decimal) : Numeric.readNumeral d.chars = some d.value := by
  obtain ⟨negative, ⟨digits, hdigits⟩⟩ := d
  have hread := Expr.readUnsigned_of_isUnsigned hdigits
  cases negative with
  | true =>
    have hvalue : Numeric.readNumeral ('-' :: digits) = some (-Expr.numberValue digits) := by
      rw [Numeric.readNumeral, hread]
      rfl
    exact hvalue
  | false =>
    obtain ⟨c, rest, rfl, hc⟩ := hdigits.cons
    have hsign : c ≠ '-' ∧ c ≠ '+' := by constructor <;> (rintro rfl; cases hc)
    have hvalue : Numeric.readNumeral (c :: rest) = some (Expr.numberValue (c :: rest)) := by
      unfold Numeric.readNumeral
      split
      · next heq => exact absurd (List.cons.inj heq).1 hsign.1
      · next heq => exact absurd (List.cons.inj heq).1 hsign.2
      · rw [hread]
        rfl
    exact hvalue

/-- Between its quotes, a text is read character by character, unless the quote itself stands in
it. -/
theorem quoted?_text (quote : Quote) {held : List Char} (hheld : quote.char ∉ held) :
    quoted? (quote.char :: (held ++ [quote.char])) = some (String.ofList held) := by
  have hquote : Nesting.isQuote quote.char := by cases quote <;> rfl
  unfold quoted?
  dsimp only
  rw [List.getLast?_concat]
  dsimp only
  rw [List.dropLast_concat, contains_eq_false hheld, if_pos ⟨hquote, rfl, rfl⟩]

/-- A text that is read as a number is this number, if it is not the word for a truth value. -/
theorem literalOf?_of_readNumeral {x : Float} (hword : ∀ b, cs ≠ (truthWord b).toList)
    (h : Numeric.readNumeral cs = some x) : literalOf? cs = some (.number x) := by
  unfold literalOf?
  split
  · next heq => exact absurd (String.toList_ofList.symm.trans (congrArg _ heq)) (hword true)
  · next heq => exact absurd (String.toList_ofList.symm.trans (congrArg _ heq)) (hword false)
  · rw [h]

/-- A text in quotes is what stands in them, if it is neither a truth value nor a number. Quotes are
part of neither. -/
theorem literalOf?_of_quoted? {text : String} (hword : ∀ b, cs ≠ (truthWord b).toList)
    (hread : Numeric.readNumeral cs = none) (h : quoted? cs = some text) :
    literalOf? cs = some (.text text) := by
  unfold literalOf?
  split
  · next heq => exact absurd (String.toList_ofList.symm.trans (congrArg _ heq)) (hword true)
  · next heq => exact absurd (String.toList_ofList.symm.trans (congrArg _ heq)) (hword false)
  · rw [hread, h]
    rfl

/-- A literal is read as its value. The readers are tried one after the other, so the earlier ones
must not take what is meant for a later one: no numeral is a truth word, and no text in quotes is
either. -/
theorem literalOf?_chars (l : Literal) : literalOf? l.chars = some l.value := by
  cases l with
  | number d =>
    refine literalOf?_of_readNumeral (fun b hb => ?_) (readNumeral_chars d)
    have hread := readNumeral_chars d
    have hnone : Numeric.readNumeral (truthWord b).toList = none := by cases b <;> rfl
    rw [show d.chars = (truthWord b).toList from hb, hnone] at hread
    cases hread
  | truth b => cases b <;> rfl
  | text quote held =>
    obtain ⟨held, hheld⟩ := held
    have hquote : quote.char ∉ held := not_mem_of_isTame hheld (by cases quote <;> decide)
    refine literalOf?_of_quoted? (fun b hb => ?_) ?_ (quoted?_text quote hquote)
    · have hhead : quote.char = 't' ∨ quote.char = 'f' := by
        cases b
        · exact .inr (List.cons.inj hb).1
        · exact .inl (List.cons.inj hb).1
      cases quote <;> exact absurd hhead (by decide)
    · refine Option.eq_none_iff_forall_ne_some.2 fun x hx => ?_
      have hcalm := List.all_eq_true.1 (Expr.all_isCalm_of_readNumeral hx) _ List.mem_cons_self
      cases quote <;> cases hcalm

/-! ### Atoms -/

/-- An atom begins with its field and ends with its literal or its zero, and neither has blanks at
its ends. -/
theorem Atom.tight (a : Atom) : Tight a.chars := by
  cases a with
  | comparison field before op behind literal =>
    have hfield := tight_of_shape field.shape
    have hliteral := tight_of_shape literal.shape
    have h := hfield.around (before.1 ++ (op.symbol.toList ++ behind.1)) hliteral
    rwa [List.append_assoc, List.append_assoc] at h
  | divisibility field before behind divisor beforeTest divisible behindTest =>
    have hfield := tight_of_shape field.shape
    have hzero : Tight ['0'] := tight_singleton (by decide)
    have h := hfield.around (before.1 ++ '%' :: (behind.1 ++ (divisor.chars ++
      (beforeTest.1 ++ ((zeroOp divisible).symbol.toList ++ behindTest.1))))) hzero
    simp only [List.append_assoc, List.cons_append] at h
    exact h

/-- A text in which the mark stands nowhere outside is a single part, without the blanks around
it. -/
theorem split_of_quiet {mark : Char} (h : Quiet mark {} w) : split mark w = [Text.trim w] := by
  have happend := splitFrom_append (r := []) h
  rw [List.append_nil] at happend
  rw [split, happend, splitFrom, List.modifyHead_cons, List.append_nil]
  rfl

/-- Without a parenthesis in front there is none to strip off. -/
theorem stripParens_of_head? (h : cs.head? ≠ some '(') : stripParens cs = cs := by
  unfold stripParens
  split
  · exact absurd rfl h
  · rfl

theorem PlainName.head?_ne (n : PlainName) : n.chars.head? ≠ some '(' := by
  obtain ⟨c, cs, hn, hc, -⟩ := n.cons
  rw [hn]
  rintro ⟨⟩
  cases hc

/-- A text with a character that no word has is not the word for a truth value. -/
theorem truthOf?_eq_none (hc : c ∈ cs) (hword : Expr.isWordChar c = false) :
    truthOf? cs = none := by
  have hne (b : Bool) : String.ofList cs ≠ truthWord b := by
    intro heq
    obtain rfl : cs = (truthWord b).toList := String.toList_ofList.symm.trans (congrArg _ heq)
    have hall : (truthWord b).toList.all Expr.isWordChar := by cases b <;> decide
    exact not_mem_of_class hword hall hc
  unfold truthOf?
  split
  · next heq => exact absurd heq (hne true)
  · next heq => exact absurd heq (hne false)
  · rfl

/-- An atom is one condition, and no truth value: it has an operator in it, which no word has, and
neither `&&` nor `||` outside. -/
theorem Atom.single_eq (a : Atom) :
    (truthOf? a.chars).or (singleOf? a.chars) =
      (divisibilityOf? a.chars).or (comparisonOf? a.chars) := by
  have hoperator : ∃ c ∈ a.chars, Expr.isWordChar c = false := by
    cases a with
    | comparison field before op behind literal =>
      have hop : ∃ c ∈ op.symbol.toList, Expr.isWordChar c = false := by
        cases op <;> exact ⟨_, List.mem_cons_self, by decide⟩
      obtain ⟨c, hmem, hc⟩ := hop
      exact ⟨c, List.mem_append_right _ <| List.mem_append_right _ <| List.mem_append_left _ hmem,
        hc⟩
    | divisibility =>
      exact ⟨'%', List.mem_append_right _ <| List.mem_append_right _ List.mem_cons_self, by decide⟩
  obtain ⟨c, hmem, hc⟩ := hoperator
  have hand := split_of_quiet (a.inert.quiet 0 '&' (by decide))
  have hor := split_of_quiet (a.inert.quiet 0 '|' (by decide))
  rw [truthOf?_eq_none hmem hc, Option.none_or, singleOf?, hand, hor, if_neg]
  exact not_or.2 ⟨Nat.lt_irrefl 1, Nat.lt_irrefl 1⟩

/-- What is quoted may hold a percent sign, but does not end with a zero. -/
theorem Literal.not_mem_percent (l : Literal) (h : l.chars.getLast? = some '0') :
    '%' ∉ l.chars := by
  cases l with
  | number d => exact not_mem_of_class (by decide) d.all_isWordChar
  | truth b => cases b <;> decide
  | text quote held =>
    rw [Literal.chars, ← List.cons_append, List.getLast?_concat] at h
    cases quote <;> exact absurd h (by decide)

/-- A comparison tests no remainder. The test would need a percent sign, and of the parts of a
comparison only a literal can have one, between quotes, where the test could not end. -/
theorem divisibilityOf?_comparison (field : PlainName) (before : Blanks) (op : CompareOp)
    (behind : Blanks) (literal : Literal) :
    divisibilityOf? (Atom.comparison field before op behind literal).chars = none := by
  refine Option.eq_none_iff_forall_ne_some.2 fun k hk => ?_
  obtain ⟨⟨body, divisible⟩, hzero, hk⟩ := Option.bind_eq_some_iff.1 hk
  obtain ⟨⟨left, divisor⟩, hdividend, -⟩ := Option.bind_eq_some_iff.1 hk
  have hlast := getLast?_of_zeroTest? hzero
  obtain ⟨blanks, -, hchars⟩ := eq_of_zeroTest? hzero
  obtain ⟨pre, post, rfl, -, -⟩ := eq_of_dividend? hdividend
  have hpercent : '%' ∈ (Atom.comparison field before op behind literal).chars := by
    rw [hchars]
    exact List.mem_append_left _ (List.mem_append_right _ List.mem_cons_self)
  have hop : '%' ∉ op.symbol.toList := by cases op <;> decide
  have hne := (tight_of_shape literal.shape).ne_nil
  simp only [Atom.chars, List.mem_append] at hpercent
  simp only [Atom.chars, ← List.append_assoc, List.getLast?_append_of_ne_nil _ hne] at hlast
  rcases hpercent with h | h | h | h | h
  · exact not_mem_of_class (by decide) field.all_isWordChar h
  · exact not_mem_of_class (by decide) before.2 h
  · exact hop h
  · exact not_mem_of_class (by decide) behind.2 h
  · exact literal.not_mem_percent hlast h

/-- **A comparison is read as it was written**: its operator is found, the field stands in front of
it, the literal behind it, and the blanks between them are trimmed off. No operator is found
earlier, since the field is inert, and none that is longer, since no literal begins with an equals
sign. -/
theorem comparisonOf?_comparison (field : PlainName) (before : Blanks) (op : CompareOp)
    (behind : Blanks) (literal : Literal) :
    comparisonOf? (Atom.comparison field before op behind literal).chars =
      some (Atom.comparison field before op behind literal).constraint := by
  have hfield := tight_of_shape field.shape
  have hliteral := tight_of_shape literal.shape
  have hparts := comparisonParts?_append op (field.inert.append before.inert)
    (behind.inert.append literal.inert)
  rw [List.append_assoc] at hparts
  have hleft : Text.trim (field.chars ++ before.1) = field.chars :=
    hfield.trim_append ⟨[], rfl⟩ before
  have hright : Text.trim (behind.1 ++ literal.chars) = literal.chars := by
    have htrim := hliteral.trim_append behind ⟨[], rfl⟩
    rwa [List.append_nil] at htrim
  have hfilled : ¬(field.chars.isEmpty || literal.chars.isEmpty) := by
    rw [Bool.or_eq_true, List.isEmpty_iff, List.isEmpty_iff]
    exact not_or.2 ⟨hfield.ne_nil, hliteral.ne_nil⟩
  rw [comparisonOf?, Atom.chars, hparts]
  dsimp only [Option.bind_eq_bind, Option.bind_some]
  rw [hleft, hright, if_neg hfilled, stripParens_of_head? field.head?_ne, literalOf?_chars]
  exact congrArg (fun name => some (Constraint.comparison name _ _ _)) String.ofList_toList

/-- **A test for divisibility is read as it was written**: the test for zero at its end, the percent
sign in front of that, and the field and the divisor around it. The field is no comparison, or the
whole would have been refused as a test. -/
theorem divisibilityOf?_divisibility (field : PlainName) (before behind : Blanks)
    (divisor : Decimal) (beforeTest : Blanks) (divisible : Bool) (behindTest : Blanks) :
    let a := Atom.divisibility field before behind divisor beforeTest divisible behindTest
    divisibilityOf? a.chars = some a.constraint := by
  intro a
  have hchars : a.chars = (field.chars ++ (before.1 ++ '%' :: (behind.1 ++ (divisor.chars ++
      beforeTest.1)))) ++ ((zeroOp divisible).symbol.toList ++ (behindTest.1 ++ ['0'])) := by
    simp only [a, Atom.chars, List.append_assoc, List.cons_append]
  rw [divisibilityOf?, hchars, zeroTest?_append]
  dsimp only [Option.bind_eq_bind, Option.bind_some]
  rw [dividend?_remainder]
  dsimp only [Option.bind_some]
  rw [field.inert.comparisonParts?_eq_none]
  exact congrArg (fun name => some (Constraint.divisibility name _ _)) String.ofList_toList

theorem Atom.head?_ne (a : Atom) : a.chars.head? ≠ some '(' := by
  cases a with
  | comparison field | divisibility field =>
    rw [Atom.chars, List.head?_append_of_ne_nil _ field.shape.ne_nil]
    exact field.head?_ne

/-- The text of an atom is read as its constraint. -/
theorem Atom.single (a : Atom) :
    (truthOf? a.chars).or (singleOf? a.chars) = some a.constraint := by
  rw [a.single_eq]
  cases a with
  | comparison => rw [divisibilityOf?_comparison, Option.none_or, comparisonOf?_comparison]
  | divisibility => rw [divisibilityOf?_divisibility, Option.some_or]

/-- The constraint of an atom becomes its filter, unless it divides by 0. -/
theorem Atom.ofConstraint?_constraint (a : Atom) (h : ∀ d ∈ a.divisor?, (d.value == 0.0) = false) :
    FieldFilter.ofConstraint? a.constraint = some a.filter := by
  cases a with
  | comparison field => exact if_pos field.isPlain
  | divisibility field before behind divisor beforeTest divisible behindTest =>
    have hzero : (divisor.value == 0.0) = false := h divisor rfl
    rw [Atom.constraint, FieldFilter.ofConstraint?, if_pos field.isPlain, String.toList_ofList,
      readNumeral_chars]
    dsimp only
    rw [hzero]
    rfl

end ProcedureChart.Constraint
