import ProcedureChart.Constraint.Filter
import ProcedureChart.Expr.Eval
import ProcedureChart.Proofs.Constraint.Outside
import ProcedureChart.Proofs.Expr.Neighbours
import ProcedureChart.Proofs.Expr.Operands

/-!
# Simple conditions

A text from which one simple condition is read, if it is plainly written and an expression at all,
has the value of that condition: the filter of the condition holds of the value of its field where
the expression is true, and does not hold where it is false (`mirrors_single`). The text around the
operator is a name and a literal, which are one token each, so the tokens of the whole are known and
leave one tree.
-/

namespace ProcedureChart

/-- What a test says in an expression: there a remainder that is NaN is not 0. -/
def FilterTest.holds (test : FilterTest) (v : Value) : Bool :=
  match test with
  | .compare op literal => op.holds v literal
  | .divisible divisor expected => (Numeric.remainder v.toNumber divisor == 0.0) == expected

/-- The operator of expressions that an operator of conditions is. -/
def CompareOp.operator : CompareOp → Expr.Operator
  | equal => .equal | notEqual => .notEqual | greaterEqual => .greaterEqual
  | lessEqual => .lessEqual | greater => .greater | less => .less

/-- The operators of conditions are spelled like those of expressions. -/
theorem CompareOp.toList_symbol (op : CompareOp) :
    op.symbol.toList = op.operator.mark.spelling := by
  cases op <;> rfl

namespace Constraint

open ProcedureChart.Expr (Token Mark Operator Spelled Phrase Stripped)

variable {c : Char} {cs l r : List Char} {ts us : List Token} {operand : Bool} {s : Nesting}
  {e : Expr}

/-! ### The first occurrence of an operator -/

/-- Where a text is cut at an operator, this stands outside of quotes and parentheses, and the two
parts around it are all of the text. -/
theorem eq_of_cutFrom? {symbol : List Char} (h : cutFrom? symbol s cs = some (l, r)) :
    ∃ c r', cs = l ++ c :: r' ∧ (l.foldl .step s).outside c ∧
      symbol.isPrefixOf (c :: r') ∧ r = (c :: r').drop symbol.length := by
  induction cs generalizing s l with
  | nil => cases h
  | cons c cs ih =>
    rw [cutFrom?] at h
    split at h
    · next hfound =>
      cases h
      exact ⟨c, cs, rfl, hfound.1, hfound.2, rfl⟩
    · obtain ⟨⟨l', r'⟩, hcut, heq⟩ := Option.map_eq_some_iff.1 h
      cases heq
      obtain ⟨c', r', rfl, houtside, hbegin, hr⟩ := ih hcut
      exact ⟨c', r', rfl, houtside, hbegin, hr⟩

/-- Where no cut was found, the operator begins at no place outside. -/
theorem not_isPrefixOf_of_cutFrom? {symbol : List Char} (h : cutFrom? symbol s (l ++ c :: r) = none)
    (houtside : (l.foldl .step s).outside c) : ¬symbol.isPrefixOf (c :: r) := by
  induction l generalizing s with
  | nil =>
    rw [List.nil_append, cutFrom?] at h
    split at h
    · cases h
    · next hnot => exact fun hbegin => hnot ⟨houtside, hbegin⟩
  | cons c' l ih =>
    rw [List.cons_append, cutFrom?] at h
    split at h
    · cases h
    · exact ih (Option.map_eq_none_iff.1 h) houtside

/-- The operator of a comparison stands between its parts, and no longer mark begins there. A longer
one is an operator itself and is searched for before. -/
theorem eq_of_comparisonParts? {op : CompareOp} (h : comparisonParts? cs = some (op, l, r)) :
    cs = l ++ (op.operator.mark.spelling ++ r) ∧
      ∀ m : Mark, m.spelling <+: op.operator.mark.spelling ++ r →
        m.spelling.length ≤ op.operator.mark.spelling.length := by
  obtain ⟨before, op', behind, hall, hop, hbefore⟩ := List.findSome?_eq_some_iff.1 h
  obtain ⟨⟨l', r'⟩, hcut, heq⟩ := Option.map_eq_some_iff.1 hop
  cases heq
  have hlonger : ∀ op' : CompareOp, op.symbol.toList.length < op'.symbol.toList.length →
      cut? op'.symbol.toList cs = none := by
    intro op' hlt
    have hsorted : CompareOp.all.Pairwise fun a b =>
        b.symbol.toList.length ≤ a.symbol.toList.length := by decide
    rw [hall] at hsorted
    have hmem : op' ∈ before ++ op :: behind := hall ▸ by cases op' <;> decide
    rcases List.mem_append.1 hmem with hmem | hmem
    · exact Option.map_eq_none_iff.1 (hbefore op' hmem)
    · have hle : op'.symbol.toList.length ≤ op.symbol.toList.length := by
        rcases List.mem_cons.1 hmem with rfl | hmem
        · exact Nat.le_refl _
        · exact (List.pairwise_cons.1 (List.pairwise_append.1 hsorted).2.1).1 op' hmem
      exact absurd hlt (Nat.not_lt.2 hle)
  obtain ⟨c, rest, hcs, houtside, hbegin, rfl⟩ := eq_of_cutFrom? hcut
  have hsymbol := List.prefix_iff_eq_append.1 (List.isPrefixOf_iff_prefix.1 hbegin)
  rw [CompareOp.toList_symbol] at hsymbol ⊢
  rw [hsymbol]
  refine ⟨hcs, fun m hm => Nat.le_of_not_lt fun hlt => ?_⟩
  -- a longer mark there would be an operator that is searched for before
  have hextends : op.operator.mark.spelling <+: m.spelling :=
    List.prefix_of_prefix_length_le (hsymbol ▸ List.prefix_append _ _) hm (Nat.le_of_lt hlt)
  obtain ⟨op', -, hop'⟩ : ∃ op' ∈ CompareOp.all, op'.operator.mark = m := by
    revert hextends hlt
    cases op <;> cases m <;> decide
  rw [← hop', ← CompareOp.toList_symbol] at hm hlt
  rw [← CompareOp.toList_symbol] at hlt
  have hnone := hlonger op' hlt
  rw [hcs] at hnone
  exact not_isPrefixOf_of_cutFrom? hnone houtside (List.isPrefixOf_iff_prefix.2 hm)

/-! ### Blanks and parentheses around a text -/

/-- If a text without what was dropped from it has only characters of a class, and what was dropped
is of that class too, then all of the text is. So it is for blanks at both ends. -/
theorem all_of_dropWhile {p q : Char → Bool} (hp : ∀ c, q c → p c)
    (h : (cs.dropWhile q).all p) : cs.all p := by
  rw [← List.takeWhile_append_dropWhile (p := q) (l := cs), List.all_append, h, Bool.and_true]
  exact List.all_eq_true.2 fun c hc => hp c (List.all_eq_true.1 List.all_takeWhile c hc)

theorem all_of_trimBack {p : Char → Bool} (hp : ∀ c, Text.isBlank c → p c)
    (h : (Text.trimBack cs).all p) : cs.all p := by
  rw [Text.trimBack, List.all_reverse] at h
  have hreverse := all_of_dropWhile hp h
  rwa [List.all_reverse] at hreverse

theorem all_of_trim {p : Char → Bool} (hp : ∀ c, Text.isBlank c → p c)
    (h : (Text.trim cs).all p) : cs.all p :=
  all_of_dropWhile hp (all_of_trimBack hp h)

theorem isCalm_of_isBlank (h : Text.isBlank c) : Expr.isCalm c := by
  rw [Expr.isCalm, h]
  rfl

/-- What is calm inside its parentheses is calm with them, since parentheses and the blanks that
were trimmed off are calm as well. -/
theorem all_isCalm_of_strip (h : (stripParens cs).all Expr.isCalm) : cs.all Expr.isCalm := by
  fun_induction stripParens cs with
  | case1 rest hclose ih =>
    obtain ⟨inside, rfl⟩ := List.getLast?_eq_some_iff.1 (getLast?_of_closesAtEnd hclose)
    rw [List.dropLast_concat] at ih h
    have hinside := all_of_trim (fun _ => isCalm_of_isBlank) (ih h)
    rw [List.all_cons, List.all_append, hinside]
    decide
  | case2 | case3 => exact h

/-! ### Names -/

/-- The letters and digits of core are in ASCII, so what is said of them can be tried out one by
one. -/
theorem toNat_lt_of_isAlphanum (h : c.isAlphanum || c == '_') : c.toNat < 128 := by
  have hval : c.isUpper || c.isLower || c.isDigit || c == '_' := h
  simp only [Bool.or_eq_true, beq_iff_eq, or_assoc] at hval
  rcases hval with h | h | h | rfl
  · exact Nat.lt_of_le_of_lt (decide_eq_true_iff.1 h).2 (by decide)
  · exact Nat.lt_of_le_of_lt (decide_eq_true_iff.1 (Bool.and_eq_true_iff.1 h).2) (by decide)
  · exact Nat.lt_of_le_of_lt (decide_eq_true_iff.1 (Bool.and_eq_true_iff.1 h).2) (by decide)
  · decide

/-- A plain name is written like a name. Its characters are ASCII letters, digits and underscores,
for which the two tests agree. -/
theorem cons_of_isPlainName (h : FieldFilter.isPlainName (String.ofList cs)) :
    ∃ c cs', cs = c :: cs' ∧ Text.isNameStart c ∧ cs'.all Text.isNameChar := by
  rw [FieldFilter.isPlainName, String.toList_ofList] at h
  cases cs with
  | nil => cases h
  | cons c cs =>
    obtain ⟨hstart, hall⟩ := Bool.and_eq_true_iff.1 h
    refine ⟨c, cs, rfl, ?_, List.all_eq_true.2 fun c hc => ?_⟩
    · have hc : c.isAlphanum || c == '_' := by
        rw [Char.isAlphanum, Bool.or_right_comm, hstart]
        rfl
      exact Expr.forall_ascii (p := fun c => c.isAlpha || c == '_' → Text.isNameStart c) (by decide)
        (toNat_lt_of_isAlphanum hc) hstart
    · have hc := List.all_eq_true.1 hall c hc
      exact Expr.forall_ascii (p := fun c => c.isAlphanum || c == '_' → Text.isNameChar c)
        (by decide) (toNat_lt_of_isAlphanum hc) hc

/-- The characters of a plain name are calm, so a text of them is cut between tokens behind it. -/
theorem all_isCalm_of_isPlainName (h : FieldFilter.isPlainName (String.ofList cs)) :
    cs.all Expr.isCalm := by
  obtain ⟨c, cs, rfl, hc, hcs⟩ := cons_of_isPlainName h
  rw [List.all_cons, Expr.isCalm_of_isNameChar (Text.isNameChar_of_isNameStart hc)]
  exact List.all_eq_true.2 fun c hc =>
    Expr.isCalm_of_isNameChar (List.all_eq_true.1 hcs c hc)

/-- The tokens of a plain name in parentheses are an operand, and its tree is the name. -/
theorem phrase_of_isPlainName (h : Spelled operand cs ts)
    (hname : FieldFilter.isPlainName (String.ofList cs))
    (hkeyword : Expr.keyword? (String.ofList cs) = none) :
    Phrase .primary ts (.name (String.ofList cs)) := by
  obtain ⟨c, cs, rfl, hc, hcs⟩ := cons_of_isPlainName hname
  rw [(Expr.spelled_name h hc hcs).1]
  exact .name hkeyword

/-! ### Literals -/

/-- A text in quotes is a single text. The quote at its ends is not in between, so nothing closes it
before its end. -/
theorem phrase_of_quoted? {t : String} (h : Spelled operand cs ts) (ht : quoted? cs = some t) :
    Phrase .primary ts (.literal (.text t)) := by
  unfold quoted? at ht
  split at ht
  · cases ht
  · next quote rest =>
    split at ht
    · cases ht
    · next last hlast =>
      obtain ⟨held, rfl⟩ := List.getLast?_eq_some_iff.1 hlast
      rw [List.dropLast_concat] at ht
      split at ht
      · next hquoted =>
        cases ht
        obtain ⟨hquote, rfl, hheld⟩ := hquoted
        rw [Nesting.isQuote, Bool.or_eq_true, beq_iff_eq, beq_iff_eq] at hquote
        rw [Bool.not_eq_true', List.contains_eq_mem, decide_eq_false_iff_not] at hheld
        rw [Expr.spelled_text h hquote hheld]
        exact .text _
      · cases ht

/-- The tokens of a literal are an operand, or such as no phrase has. The odd ones are numerals that
an expression does not know as such, like `+1` and `.5`. -/
theorem phrase_of_literalOf? {v : Value} (h : Spelled false cs ts) (hv : literalOf? cs = some v) :
    Phrase .primary ts (.literal v) ∨ Expr.Odd ts := by
  have hword {c : Char} {w : List Char} {b : Bool} (hcs : cs = c :: w)
      (hc : Text.isNameStart c) (hw : w.all Text.isNameChar)
      (hb : Expr.keyword? (String.ofList cs) = some (.bool b)) :
      Phrase .primary ts (.literal (.bool b)) := by
    subst hcs
    rw [(Expr.spelled_name h hc hw).1]
    exact .keyword hb
  unfold literalOf? at hv
  split at hv
  · next heq =>
    cases hv
    have hcs : cs = "true".toList := String.toList_ofList.symm.trans (congrArg _ heq)
    exact .inl (hword hcs (by decide) (by decide) (by rw [heq]; rfl))
  · next heq =>
    cases hv
    have hcs : cs = "false".toList := String.toList_ofList.symm.trans (congrArg _ heq)
    exact .inl (hword hcs (by decide) (by decide) (by rw [heq]; rfl))
  · split at hv
    · next x hread =>
      cases hv
      rcases Expr.spelled_numeral h hread with rfl | hodd
      · exact .inl (.number x)
      · exact .inr hodd
    · obtain ⟨t, ht, rfl⟩ := Option.map_eq_some_iff.1 hv
      exact .inl (phrase_of_quoted? h ht)

/-! ### Comparisons -/

/-- Odd tokens do not stand behind a mark in a phrase: an operand must begin there, and neither `+`
nor `.` begins one. -/
theorem not_odd_of_phrase {m : Mark} {rung : Expr.Rung}
    (h : Phrase rung (ts ++ .mark m :: us) e) (hm : (Token.mark m).closes = false)
    (hodd : Expr.Odd us) : False := by
  have hfollows {t u : Token} (ht : t.closes = false) (h : t.Follows u) :
      u ≠ .mark .plus ∧ u ≠ .mark .dot := by
    rwa [Token.Follows, ht] at h
  have hchain := (List.isChain_append.1 h.joined.chain).2.1
  cases hodd with
  | sign => exact (hfollows hm (List.isChain_cons_cons.1 hchain).1).1 rfl
  | point => exact (hfollows hm (List.isChain_cons_cons.1 hchain).1).2 rfl
  | signPoint =>
    have hrest := (List.isChain_cons_cons.1 hchain).2
    exact (hfollows rfl (List.isChain_cons_cons.1 hrest).1).2 rfl
  | @exponent x s =>
    have hrest := (List.isChain_cons_cons.1 hchain).2
    exact (List.isChain_cons_cons.1 hrest).1 s rfl

/-- No operator ends an operand, so a sign behind it belongs to what follows. -/
theorem closes_operator (op : Operator) : (Token.mark op.mark).closes = false := by
  cases op <;> rfl

/-- The value of a condition on a field is the value of an expression, if that has one. -/
def Mirrors (k : Constraint) (e : Expr) : Prop :=
  ∀ φ, FieldFilter.ofConstraint? k = some φ → Expr.keyword? φ.field = none →
    ∀ ctx v, e.eval ctx = .ok v → ∃ w, ctx.lookup φ.field = some w ∧ v = .bool (φ.test.holds w)

/-- A comparison that has a value compares the value of its name with the literal. -/
theorem eval_comparison {op : CompareOp} {n : String} {literal v : Value} {ctx : Context}
    (h : Expr.eval ctx (.binary op.operator (.name n) (.literal literal)) = .ok v) :
    ∃ w, ctx.lookup n = some w ∧ v = .bool (op.holds w literal) := by
  simp only [Expr.eval] at h
  cases hlookup : ctx.lookup n with
  | none =>
    rw [hlookup] at h
    cases h
  | some w =>
    rw [hlookup] at h
    refine ⟨w, rfl, ?_⟩
    cases op <;> exact (Except.ok.inj h).symm

/-- A comparison has the value of its condition. -/
theorem mirrors_comparison {k : Constraint} (hcs : Spelled false cs ts)
    (he : Phrase .conditional ts e) (hk : comparisonOf? cs = some k) : k.Mirrors e := by
  intro φ hφ hkeyword ctx v hv
  obtain ⟨⟨op, l, r⟩, hparts, hk⟩ := Option.bind_eq_some_iff.1 hk
  dsimp only at hk
  split at hk
  · cases hk
  cases hk
  simp only [FieldFilter.ofConstraint?] at hφ
  split at hφ
  · next literal hliteral =>
    split at hφ
    · next hname =>
      cases hφ
      have hl : l.all Expr.isCalm := all_of_trim (fun _ => isCalm_of_isBlank)
        (all_isCalm_of_strip (all_isCalm_of_isPlainName hname))
      obtain ⟨rfl, hlongest⟩ := eq_of_comparisonParts? hparts
      obtain ⟨ls, rs, rfl, hls, hrs⟩ := hcs.split_mark hl (by cases op <;> decide) hlongest
      obtain ⟨ls', hls', hstripped⟩ := strip_spelled hls.trim
      have hleft := hstripped.primary (phrase_of_isPlainName hls' hname hkeyword)
      rcases phrase_of_literalOf? hrs.trim hliteral with hright | hodd
      · have htree := Phrase.to_conditional (.binary op.operator (hleft.of_primary _)
          (hright.of_primary _))
        rw [he.unique htree] at hv
        exact eval_comparison hv
      · exact absurd hodd fun hodd => not_odd_of_phrase he (closes_operator _) hodd
    · cases hφ
  · cases hφ

/-! ### Divisibilities -/

/-- The operator of a test for zero. -/
def zeroOp (divisible : Bool) : CompareOp := if divisible then .equal else .notEqual

/-- A text with a test for zero at its end is what stands in front of the test, the operator of the
test, blanks, and a zero. -/
theorem eq_of_zeroTest? {divisible : Bool} (h : zeroTest? cs = some (l, divisible)) :
    ∃ blanks : List Char, blanks.all Text.isBlank ∧
      cs = l ++ ((zeroOp divisible).operator.mark.spelling ++ (blanks ++ ['0'])) := by
  unfold zeroTest? at h
  split at h
  · next rest hreverse =>
    have hcs : cs = (rest.dropWhile Text.isBlank).reverse ++
        ((rest.takeWhile Text.isBlank).reverse ++ ['0']) := by
      rw [← List.reverse_reverse cs, hreverse, List.reverse_cons, ← List.append_assoc,
        ← List.reverse_append, List.takeWhile_append_dropWhile]
    refine ⟨(rest.takeWhile Text.isBlank).reverse, ?_, hcs.trans ?_⟩
    · rw [List.all_reverse]
      exact List.all_takeWhile
    · rw [← List.append_assoc l]
      congr 1
      split at h
      · next before hdrop =>
        cases h
        rw [hdrop, List.reverse_cons, List.reverse_cons, List.append_assoc]
        rfl
      · next before hdrop =>
        cases h
        rw [hdrop, List.reverse_cons, List.reverse_cons, List.append_assoc]
        rfl
      · cases h
  · cases h

/-- A remainder has a percent sign between its parts, which are trimmed of the blanks around it. The
parts may have further percent signs in them as far as this goes. -/
theorem eq_of_dividend? {before left divisor : List Char}
    (h : dividend? before cs = some (left, divisor)) :
    ∃ pre post, cs = pre ++ '%' :: post ∧ left = Text.trimBack (before.reverse ++ pre) ∧
      divisor = Text.trim post := by
  induction cs generalizing before with
  | nil => cases h
  | cons c cs ih =>
    have hmore {before : List Char} (h : dividend? (c :: before) cs = some (left, divisor)) :
        ∃ pre post, c :: cs = pre ++ '%' :: post ∧ left = Text.trimBack (before.reverse ++ pre) ∧
          divisor = Text.trim post := by
      obtain ⟨pre, post, rfl, rfl, rfl⟩ := ih h
      refine ⟨c :: pre, post, rfl, ?_, rfl⟩
      rw [List.reverse_cons, List.append_assoc]
      rfl
    unfold dividend? at h
    split at h
    · next hpercent =>
      obtain ⟨rfl, -⟩ := hpercent
      dsimp only at h
      split at h
      · cases h
      · split at h
        · exact hmore h
        · cases h
          exact ⟨[], cs, rfl, by rw [List.append_nil], rfl⟩
    · exact hmore h

theorem readUnsigned_zero : Numeric.readUnsigned ['0'] = some 0.0 := by decide +kernel

/-- A test for divisibility that has a value tests the remainder of its name by the divisor. It has
a value only where the name has one. -/
theorem eval_divisibility {divisible : Bool} {n : String} {x : Float} {v : Value} {ctx : Context}
    (h : Expr.eval ctx (.binary (zeroOp divisible).operator
      (.binary .percent (.name n) (.literal (.number x))) (.literal (.number 0.0))) = .ok v) :
    ∃ w, ctx.lookup n = some w ∧ v = .bool ((FilterTest.divisible x divisible).holds w) := by
  simp only [Expr.eval] at h
  cases hlookup : ctx.lookup n with
  | none =>
    rw [hlookup] at h
    cases divisible <;> cases h
  | some w =>
    rw [hlookup] at h
    refine ⟨w, rfl, ?_⟩
    cases divisible
    · exact (Except.ok.inj h).symm.trans (congrArg Value.bool (beq_false _).symm)
    · exact (Except.ok.inj h).symm.trans (congrArg Value.bool (beq_true _).symm)

/-- The tokens of a zero behind blanks. -/
theorem spelled_zero {blanks : List Char} (h : Spelled false (blanks ++ ['0']) ts)
    (hblanks : blanks.all Text.isBlank) : ts = [.number 0.0] ∨ Expr.Odd ts := by
  have htrim : Text.trimFront (blanks ++ ['0']) = ['0'] := by
    rw [Text.trimFront, List.dropWhile_append_of_pos (List.all_eq_true.1 hblanks)]
    rfl
  have hfront := h.trimFront
  rw [htrim] at hfront
  exact Expr.spelled_digits hfront (by decide) readUnsigned_zero

/-- The phrase of a test for zero of a remainder. The percent sign binds closer than the equality,
so the remainder is the left operand of the test. -/
theorem phrase_of_divisibility (divisible : Bool) {ls ms zs : List Token}
    {dividend divisor zero : Expr}
    (hleft : Phrase .primary ls dividend) (hdivisor : Phrase .primary ms divisor)
    (hzero : Phrase .primary zs zero) :
    Phrase (.chain .equality)
      (ls ++ .mark .percent :: (ms ++ .mark (zeroOp divisible).operator.mark :: zs))
      (.binary (zeroOp divisible).operator (.binary .percent dividend divisor) zero) := by
  have hremainder : Phrase (.chain .product) (ls ++ .mark .percent :: ms)
      (.binary .percent dividend divisor) :=
    .binary .percent (hleft.of_primary _) (hdivisor.of_primary _)
  have hequality : Phrase (.chain .equality) (ls ++ .mark .percent :: ms)
      (.binary .percent dividend divisor) := .single (.single (.single hremainder))
  rw [← List.cons_append, ← List.append_assoc]
  cases divisible with
  | true => exact .binary .equal hequality (hzero.of_primary _)
  | false => exact .binary .notEqual hequality (hzero.of_primary _)

/-- A test for zero of a remainder has the value of its condition: its text, cut at the percent sign
and at the test, has the tokens of the name, the divisor and the zero. Numerals that an expression
does not know leave tokens of which no phrase is made. -/
theorem mirrors_divisibility {k : Constraint} (hcs : Spelled false cs ts)
    (he : Phrase .conditional ts e) (hk : divisibilityOf? cs = some k) : k.Mirrors e := by
  intro φ hφ hkeyword ctx v hv
  obtain ⟨⟨body, divisible⟩, hzero, hk⟩ := Option.bind_eq_some_iff.1 hk
  obtain ⟨⟨left, divisor⟩, hdividend, hk⟩ := Option.bind_eq_some_iff.1 hk
  dsimp only at hk
  split at hk
  · cases hk
  cases hk
  simp only [FieldFilter.ofConstraint?, String.toList_ofList] at hφ
  split at hφ
  · next hname =>
    split at hφ
    · next x hread =>
      split at hφ
      · cases hφ
      cases hφ
      obtain ⟨blanks, hblanks, rfl⟩ := eq_of_zeroTest? hzero
      obtain ⟨pre, post, rfl, rfl, rfl⟩ := eq_of_dividend? hdividend
      rw [List.reverse_nil, List.nil_append] at hname hkeyword
      rw [List.append_assoc, List.cons_append] at hcs
      have hpre : pre.all Expr.isCalm :=
        all_of_trimBack (fun _ => isCalm_of_isBlank) (all_isCalm_of_isPlainName hname)
      have hpost : post.all Expr.isCalm :=
        all_of_trim (fun _ => isCalm_of_isBlank) (Expr.all_isCalm_of_readNumeral hread)
      obtain ⟨ls, rs, rfl, hls, hrs⟩ := hcs.split_mark (m := .percent) hpre (by decide)
        (Mark.longest_of_head fun m => by cases m <;> decide)
      obtain ⟨ms, zs, rfl, hms, hzs⟩ := hrs.split_mark hpost (by cases divisible <;> decide)
        (Mark.longest_of_head fun m => by cases divisible <;> cases m <;> decide)
      have hleft := phrase_of_isPlainName hls.trimBack hname hkeyword
      rcases Expr.spelled_numeral hms.trim hread with rfl | hodd
      · rcases spelled_zero hzs hblanks with rfl | hodd
        · have htree := phrase_of_divisibility divisible hleft (.number x) (.number 0.0)
          rw [he.unique htree.to_conditional] at hv
          exact eval_divisibility hv
        · rw [← List.cons_append, ← List.append_assoc] at he
          exact absurd hodd fun hodd => not_odd_of_phrase he (closes_operator _) hodd
      · exact absurd (hodd.append _) fun hodd => not_odd_of_phrase he rfl hodd
    · cases hφ
  · cases hφ

/-- A text that is read as one simple condition has the value of that condition. -/
theorem mirrors_single {k : Constraint} (hcs : Spelled false cs ts)
    (he : Phrase .conditional ts e) (hk : (truthOf? cs).or (singleOf? cs) = some k) :
    k.Mirrors e := by
  rcases Option.or_eq_some_iff.1 hk with hk | ⟨-, hk⟩
  · intro φ hφ
    unfold truthOf? at hk
    split at hk <;> cases hk <;> cases hφ
  · unfold singleOf? at hk
    split at hk
    · cases hk
    · rcases Option.or_eq_some_iff.1 hk with hk | ⟨-, hk⟩
      · exact mirrors_divisibility hcs he hk
      · exact mirrors_comparison hcs he hk

end Constraint

end ProcedureChart
