import ProcedureChart.Expr.Formula
import ProcedureChart.Proofs.Constraint.Conjunction
import ProcedureChart.Proofs.Expr.Refinement
import ProcedureChart.Proofs.Numeric.Numeral

/-!
# Reading and evaluating agree

What is read from a conjunction of atoms, and what the evaluation of its text says, are the same
(`Layout.readers_agree`). The parser of constraints and the parser of expressions share nothing: one
splits characters, the other one builds a tree from tokens. They meet in how the conjunction is
written. Its tokens are those of its words, its tree has the atoms for leaves, and an atom is true
where its filter accepts the value of its field.
-/

namespace ProcedureChart.Constraint

open ProcedureChart.Expr (Token Mark Phrase Stops Scans Lexes)

variable {c : Char} {w rest : List Char} {ts : List Token} {operand : Bool}

/-! ### The tokens of words -/

theorem stops_blanks (b : Blanks) (h : Stops rest) : Stops (b.1 ++ rest) := by
  obtain ⟨b, hb⟩ := b
  cases b with
  | nil => exact h
  | cons c b =>
    exact Expr.stops_cons (Expr.isWordChar_of_isBlank (Bool.and_eq_true_iff.1 hb).1)

/-- An operator ends the word in front of it. -/
theorem stops_symbol (op : CompareOp) : Stops (op.symbol.toList ++ rest) := by
  cases op <;> exact Expr.stops_cons (by decide)

/-- A plain name is scanned as this name, if what stands behind it does not continue it. -/
theorem PlainName.scans (n : PlainName) (h : Stops rest) :
    Scans operand (.name n.name) n.chars rest := by
  obtain ⟨c, cs, hn, hc, hcs⟩ := n.cons
  have hname : n.name = String.ofList (c :: cs) := by
    rw [← hn]
    exact String.ofList_toList.symm
  rw [hname, hn]
  exact Expr.scans_name hc hcs h

/-- A decimal is scanned as one number, its sign included, where no operand ends in front of it. -/
theorem Decimal.scans (d : Decimal) (h : Stops rest) :
    Scans false (.number d.value) d.chars rest := by
  obtain ⟨negative, numeral⟩ := d
  cases negative with
  | true => exact Expr.scans_negative numeral.isUnsigned h
  | false => exact Expr.scans_number numeral.isUnsigned h

/-- A literal is scanned as one token. -/
theorem Literal.scans (l : Literal) (h : Stops rest) : Scans false l.token l.chars rest := by
  cases l with
  | number d => exact d.scans h
  | truth b =>
    cases b
    · exact Expr.scans_name (by decide) (by decide) h
    · exact Expr.scans_name (by decide) (by decide) h
  | text quote held =>
    obtain ⟨held, hheld⟩ := held
    have hquote : quote.char ∉ held := not_mem_of_isTame hheld (by cases quote <;> decide)
    have hbackslash : '\\' ∉ held := not_mem_of_isTame hheld (by decide)
    exact Expr.scans_text quote.char_cases (Expr.quoted_of_not_mem hquote hbackslash)

/-- An operator in front of no equals sign is scanned as its mark. -/
theorem CompareOp.scans (op : CompareOp) (h : rest.head? ≠ some '=') :
    Scans operand (.mark op.operator.mark) op.symbol.toList rest := by
  rw [CompareOp.toList_symbol]
  refine Expr.scans_mark ?_ fun hminus => by cases op <;> cases hminus
  rintro m ⟨more, hmore⟩
  -- only an order sign could go on as a longer mark
  cases op <;> cases m <;> first
    | decide
    | exact absurd (congrArg List.head? (List.cons.inj hmore).2.symm) h
    | cases hmore

/-- The lexemes of an operator, blanks and an operand behind it. -/
theorem lexes_symbol (op : CompareOp) (behind : Blanks) (hw : Inert operatorMarks w) (hne : w ≠ [])
    (hrest : Lexes false (w ++ rest) ts) :
    Lexes operand (op.symbol.toList ++ (behind.1 ++ (w ++ rest)))
      (.mark op.operator.mark :: ts) := by
  have hmark : (Token.mark op.operator.mark).endsOperand = false := by cases op <;> rfl
  refine .token (CompareOp.scans op ?_) (hmark.symm ▸ hrest.blanks behind.2)
  have hinert := (behind.inert.append hw).head?_ne
  rwa [← List.append_assoc, List.head?_append_of_ne_nil _
    (List.append_ne_nil_of_right_ne_nil _ hne)]

/-- A number that is written out is not NaN. -/
theorem Decimal.value_isNaN (d : Decimal) : d.value.isNaN = false := by
  have h := Numeric.readUnsigned_isNaN (Expr.readUnsigned_of_isUnsigned d.numeral.isUnsigned)
  rw [Decimal.value]
  split
  · exact Numeric.neg_isNaN h
  · exact h

/-! ### Atoms as expressions -/

namespace Atom

/-- The tokens of an atom. -/
def tokens : Atom → List Token
  | comparison field _ op _ literal =>
    [.name field.name, .mark op.operator.mark, literal.token]
  | divisibility field _ _ divisor _ divisible _ =>
    [.name field.name, .mark .percent, .number divisor.value,
      .mark (zeroOp divisible).operator.mark, .number 0.0]

/-- The expression of an atom. -/
def tree : Atom → Expr
  | comparison field _ op _ literal =>
    .binary op.operator (.name field.name) (.literal literal.value)
  | divisibility field _ _ divisor _ divisible _ =>
    .binary (zeroOp divisible).operator
      (.binary .percent (.name field.name) (.literal (.number divisor.value)))
      (.literal (.number 0.0))

/-- An atom is read as its tokens. Each of them ends where the next one begins, since a blank or a
mark is between two words. -/
theorem lexes (a : Atom) (h : Stops rest) (hrest : Lexes true rest ts) :
    Lexes operand (a.chars ++ rest) (a.tokens ++ ts) := by
  cases a with
  | comparison field before op behind literal =>
    have hliteral : literal.token.endsOperand = true := by cases literal <;> rfl
    simp only [chars, tokens, List.append_assoc, List.cons_append, List.nil_append]
    refine .token (field.scans (stops_blanks before (stops_symbol op))) (.blanks before.2 ?_)
    refine lexes_symbol op behind literal.inert literal.shape.ne_nil (.token (literal.scans h) ?_)
    rwa [hliteral]
  | divisibility field before behind divisor beforeTest divisible behindTest =>
    have hpercent {rest : List Char} : Scans true (.mark .percent) ['%'] rest :=
      Expr.scans_mark (Mark.longest_of_head fun m => by cases m <;> decide)
        fun h => absurd h (by decide)
    have hzero : Scans false (.number 0.0) ['0'] rest :=
      Decimal.scans ⟨false, ['0'], ['0'], [], by decide, by decide, by decide, .inl rfl⟩ h
    have hinert : Inert operatorMarks ['0'] :=
      inert_of_class (p := Expr.isWordChar) (by decide) (by decide)
    simp only [chars, tokens, List.append_assoc, List.cons_append, List.nil_append]
    refine .token (field.scans (stops_blanks before (Expr.stops_cons (by decide))))
      (.blanks before.2 (.token hpercent (.blanks behind.2 ?_)))
    refine .token (divisor.scans (stops_blanks beforeTest (stops_symbol _)))
      (.blanks beforeTest.2 ?_)
    exact lexes_symbol _ behindTest hinert (List.cons_ne_nil _ _) (.token hzero hrest)

/-- A literal is an operand with its own value. -/
theorem phrase_literal (l : Literal) : Phrase .primary [l.token] (.literal l.value) := by
  cases l with
  | number d => exact .number _
  | truth b => cases b <;> exact .keyword rfl
  | text quote held => exact .text _

theorem phrase (a : Atom) : Phrase (.chain .equality) a.tokens a.tree := by
  cases a with
  | comparison field before op behind literal =>
    have hfield : Phrase .primary [.name field.name] (.name field.name) := .name field.isFree
    have hbinary := Phrase.binary op.operator (hfield.of_primary _)
      ((phrase_literal literal).of_primary _)
    exact hbinary.mono (by cases op <;> decide)
  | divisibility field before behind divisor beforeTest divisible behindTest =>
    exact phrase_of_divisibility divisible (.name field.isFree) (.number _) (.number _)

/-- An atom has the value of its test, where its field has a value. -/
theorem eval_tree (a : Atom) {ctx : Context} {v : Value}
    (hv : ctx.lookup a.field.name = some v) :
    a.tree.eval ctx = .ok (.bool (a.filter.test.holds v)) := by
  cases a with
  | comparison field before op behind literal =>
    have hfield : ctx.lookup field.name = some v := hv
    simp only [tree, Expr.eval, hfield]
    cases op <;> rfl
  | divisibility field before behind divisor beforeTest divisible behindTest =>
    have hfield : ctx.lookup field.name = some v := hv
    simp only [tree, Expr.eval, hfield]
    cases divisible
    · exact congrArg (fun b => Except.ok (Value.bool b)) (beq_false _).symm
    · exact congrArg (fun b => Except.ok (Value.bool b)) (beq_true _).symm

/-- Whether the problem of a context has a value for the field of an atom, and a finite number if
the atom divides. -/
def Bound (a : Atom) (ctx : Context) : Prop :=
  ∃ v, ctx.problem.get? a.field.name = some v ∧
    (a.divisor?.isSome → ∃ x : Float, v = .number x ∧ x.isFinite)

/-- Where a field has a value, the filter of an atom accepts it if the test of the atom holds. -/
theorem accepts_filter {a : Atom} {v : Value}
    (hfinite : a.divisor?.isSome → ∃ x : Float, v = .number x ∧ x.isFinite)
    (hdivisor : ∀ d ∈ a.divisor?, (d.value == 0.0) = false) :
    a.filter.accepts v = a.filter.test.holds v := by
  cases a with
  | comparison => rfl
  | divisibility field before behind divisor beforeTest divisible behindTest =>
    obtain ⟨x, rfl, hx⟩ := hfinite rfl
    have hremainder := Numeric.remainder_isNaN hx divisor.value_isNaN (hdivisor divisor rfl)
    rw [filter, FieldFilter.accepts]
    dsimp only [Value.toNumber]
    rw [hremainder]
    rfl

end Atom

/-! ### Layouts as expressions -/

/-- An expression behind a conjunction, if there is one in front of it. -/
def attach (left : Option Expr) (e : Expr) : Expr :=
  match left with
  | none => e
  | some left => .binary .and left e

namespace Layout

/-- The tokens of a layout. -/
def tokens : Layout → List Token
  | atom a => a.tokens
  | group _ inside _ => .mark .openParen :: (inside.tokens ++ [.mark .closeParen])
  | both left _ _ right => left.tokens ++ .mark .and :: right.tokens

/-- The expression of a layout behind what stands in front of it. Conjunctions group to the left,
however they are written. -/
def join (left : Option Expr) : Layout → Expr
  | atom a => attach left a.tree
  | group _ inside _ => attach left (inside.join none)
  | both first _ _ second => second.join (some (first.join left))

/-- The expression of a layout. -/
def tree (l : Layout) : Expr := l.join none

/-- A layout is read as its tokens, whatever stands behind it, as long as it ends its last word. -/
theorem lexes (l : Layout) (h : Stops rest) (hrest : Lexes true rest ts) :
    Lexes operand (l.chars ++ rest) (l.tokens ++ ts) := by
  have hmark {operand : Bool} {m : Mark} {rest : List Char}
      (hm : m ∈ [.openParen, .closeParen, .and]) :
      Scans operand (.mark m) m.spelling rest := by
    refine Expr.scans_mark (Mark.longest_of_head fun m' => ?_) ?_
    · revert hm
      cases m <;> cases m' <;> decide
    · rintro rfl
      exact absurd hm (by decide)
  induction l generalizing operand rest ts with
  | atom a => exact a.lexes h hrest
  | group front inside back ih =>
    have hstop : Stops (back.1 ++ ')' :: rest) := stops_blanks back (Expr.stops_cons (by decide))
    have hclose : Lexes true (')' :: rest) (.mark .closeParen :: ts) :=
      .token (w := [')']) (hmark (by decide)) hrest
    have hinside : Lexes false _ _ := ih hstop (hclose.blanks back.2)
    simp only [chars, tokens, List.append_assoc, List.cons_append, List.nil_append]
    exact .token (w := ['(']) (hmark (by decide)) (hinside.blanks front.2)
  | both left before behind right ihleft ihright =>
    have hstop : Stops (before.1 ++ '&' :: '&' :: (behind.1 ++ (right.chars ++ rest))) :=
      stops_blanks before (Expr.stops_cons (by decide))
    have hand : Lexes true ('&' :: '&' :: (behind.1 ++ (right.chars ++ rest)))
        (.mark .and :: (right.tokens ++ ts)) :=
      .token (w := ['&', '&']) (hmark (by decide)) ((ihright h hrest).blanks behind.2)
    simp only [chars, tokens, List.append_assoc, List.cons_append]
    exact ihleft hstop (hand.blanks before.2)

/-- The tokens of a layout are a conjunction, alone or behind another one. -/
theorem phrase_join (l : Layout) :
    Phrase (.chain .conjunction) l.tokens (l.join none) ∧
      ∀ ts e, Phrase (.chain .conjunction) ts e →
        Phrase (.chain .conjunction) (ts ++ .mark .and :: l.tokens) (l.join (some e)) := by
  induction l with
  | atom a => exact ⟨.single a.phrase, fun _ _ he => .binary .and he a.phrase⟩
  | group front inside back ih =>
    have hparens := Phrase.parens ih.1.to_conditional
    exact ⟨hparens.of_primary _, fun _ _ he => .binary .and he (hparens.of_primary _)⟩
  | both left before behind right ihleft ihright =>
    refine ⟨ihright.2 _ _ ihleft.1, fun ts e he => ?_⟩
    have hboth := ihright.2 _ _ (ihleft.2 ts e he)
    rwa [List.append_assoc, List.cons_append] at hboth

theorem derives_text (l : Layout) (front back : Blanks) :
    Expr.Derives (l.text front back) l.tree := by
  have hlexes : Lexes false (l.text front back).toList l.tokens := by
    have hchars : Lexes false (l.chars ++ (back.1 ++ [])) (l.tokens ++ []) :=
      l.lexes (stops_blanks back Expr.stops_nil) (Lexes.blanks back.2 Expr.lexes_nil)
    rw [List.append_nil, List.append_nil] at hchars
    rw [text, String.toList_ofList]
    exact hchars.blanks front.2
  obtain ⟨ls, hls, htokens⟩ := Expr.tokenize_of_lexes hlexes
  refine ⟨ls, hls, ?_⟩
  rw [htokens]
  exact l.phrase_join.1.to_conditional

/-! ### Values -/

/-- Where both operands have truth values, a conjunction has the truth value of the two. -/
theorem eval_and {ctx : Context} {e e' : Expr} {b b' : Bool} (h : e.eval ctx = .ok (.bool b))
    (h' : e'.eval ctx = .ok (.bool b')) :
    (Expr.binary .and e e').eval ctx = .ok (.bool (b && b')) := by
  simp only [Expr.eval, h, h']
  cases b <;> rfl

/-- A conjunction has a truth value where its atoms have truth values. The reader associates to the
left while a layout nests freely, so what is in front comes along as `e`. -/
theorem eval_join {ctx : Context} {p : Atom → Bool} (l : Layout)
    (h : ∀ a ∈ l.atoms, a.tree.eval ctx = .ok (.bool (p a))) :
    (l.join none).eval ctx = .ok (.bool (l.atoms.all p)) ∧
      ∀ e b, e.eval ctx = .ok (.bool b) →
        (l.join (some e)).eval ctx = .ok (.bool (b && l.atoms.all p)) := by
  induction l with
  | atom a =>
    have ha := h a List.mem_cons_self
    have hall : [a].all p = p a := Bool.and_true _
    rw [atoms, hall]
    exact ⟨ha, fun e b he => eval_and he ha⟩
  | group front inside back ih =>
    have hinside := (ih h).1
    exact ⟨hinside, fun e b he => eval_and he hinside⟩
  | both left before behind right ihleft ihright =>
    obtain ⟨hleft, hleft'⟩ := ihleft fun a ha => h a (List.mem_append_left _ ha)
    obtain ⟨-, hright⟩ := ihright fun a ha => h a (List.mem_append_right _ ha)
    rw [atoms, List.all_append]
    refine ⟨hright _ _ hleft, fun e b he => ?_⟩
    have hboth := hright _ _ (hleft' e b he)
    rwa [Bool.and_assoc] at hboth

/-- **The readers of a text agree.** The text of a conjunction whose divisors are not 0 is read
completely, as the constraints of its atoms from left to right, and each of these is a filter. Where
the problem binds the fields of all atoms, those that are divided to finite numbers, and there is no
answer under validation, the text is true if every filter accepts the value of its field, and false
otherwise. -/
theorem readers_agree (l : Layout) (front back : Blanks)
    (hdivisors : ∀ a ∈ l.atoms, ∀ d ∈ a.divisor?, (d.value == 0.0) = false) :
    (parse (l.text front back)).complete = true ∧
      (parse (l.text front back)).constraints = l.atoms.map Atom.constraint ∧
      (parse (l.text front back)).constraints.map FieldFilter.ofConstraint? =
        l.atoms.map (some ∘ Atom.filter) ∧
      ∀ ctx : Context, ctx.input = none → (∀ a ∈ l.atoms, a.Bound ctx) →
        ∃ b, (Formula.ofSource (l.text front back)).test ctx = .ok b ∧
          (b = true ↔ ∀ a ∈ l.atoms, ∀ v, ctx.problem.get? a.filter.field = some v →
            a.filter.accepts v = true) := by
  have hparse := l.parse_text front back
  refine ⟨congrArg Parsed.complete hparse, congrArg Parsed.constraints hparse, ?_,
    fun ctx hinput hbound => ?_⟩
  · rw [hparse, List.map_map]
    exact List.map_congr_left fun a ha => a.ofConstraint?_constraint (hdivisors a ha)
  · have hlookup (name : String) (v : Value) (hv : ctx.problem.get? name = some v) :
        ctx.lookup name = some v := by
      have hanswer : (if name = "input" then ctx.input else none) = none := by
        rw [hinput, ite_self]
      rw [Context.lookup, hanswer, hv]
      rfl
    -- the truth value of an atom is whether its filter accepts
    have hatom : ∀ a ∈ l.atoms, a.tree.eval ctx =
        .ok (.bool ((ctx.problem.get? a.filter.field).all a.filter.accepts)) := by
      intro a ha
      obtain ⟨v, hv, hfinite⟩ := hbound a ha
      rw [a.eval_tree (hlookup _ _ hv), a.field_filter, hv, Option.all_some,
        Atom.accepts_filter hfinite (hdivisors a ha)]
    have hvalue := (l.eval_join hatom).1
    have hread := Expr.read_of_derives (l.derives_text front back)
    refine ⟨l.atoms.all fun a => (ctx.problem.get? a.filter.field).all a.filter.accepts, ?_, ?_⟩
    · rw [Formula.test, Formula.eval_eq, Formula.source_ofSource, Expr.evaluate, hread, Expr.run,
        tree, hvalue]
      rfl
    · simp only [List.all_eq_true, Option.all_eq_true]

/-- `n % 3 == 0` -/
def multipleOfThree : Atom :=
  .divisibility ⟨"n", by decide, by decide⟩ ⟨[' '], rfl⟩ ⟨[' '], rfl⟩
    ⟨false, ['3'], ['3'], [], by decide, by decide, by decide, .inl rfl⟩
    ⟨[' '], rfl⟩ true ⟨[' '], rfl⟩

/-- `kind == 'small'` -/
def smallKind : Atom :=
  .comparison ⟨"kind", by decide, by decide⟩ ⟨[' '], rfl⟩ .equal ⟨[' '], rfl⟩
    (.text .single ⟨"small".toList, by decide⟩)

/-- `(n % 3 == 0 && kind == 'small')` -/
def smallMultiple : Layout :=
  .group ⟨[], rfl⟩ (.both (.atom multipleOfThree) ⟨[' '], rfl⟩ ⟨[' '], rfl⟩ (.atom smallKind))
    ⟨[], rfl⟩

/-- Where `n` is 9 and `kind` is `small`, both filters accept and the text is true. All the blanks
that the text may have outside are none here. -/
theorem readers_agree_smallMultiple :
    smallMultiple.text ⟨[], rfl⟩ ⟨[], rfl⟩ = "(n % 3 == 0 && kind == 'small')" ∧
      (parse "(n % 3 == 0 && kind == 'small')").complete = true ∧
      (Formula.ofSource "(n % 3 == 0 && kind == 'small')").test
        { problem := .ofList [("n", .number 9), ("kind", .text "small")] } = .ok true := by
  have htext : smallMultiple.text ⟨[], rfl⟩ ⟨[], rfl⟩ = "(n % 3 == 0 && kind == 'small')" := by
    decide
  have hdivisors : ∀ a ∈ [multipleOfThree, smallKind], ∀ d ∈ a.divisor?,
      (d.value == 0.0) = false := by
    refine List.forall_mem_cons.2 ⟨?_, List.forall_mem_singleton.2 nofun⟩
    rintro _ ⟨⟩
    decide +kernel
  generalize hproblem : Table.ofList [("n", Value.number 9), ("kind", .text "small")] = problem
  have hn : problem.get? "n" = some (.number 9) := by
    rw [← hproblem]
    decide +kernel
  have hkind : problem.get? "kind" = some (.text "small") := by
    rw [← hproblem]
    decide +kernel
  have hbound : ∀ a ∈ [multipleOfThree, smallKind], a.Bound { problem } :=
    List.forall_mem_cons.2 ⟨⟨_, hn, fun _ => ⟨9, rfl, by decide +kernel⟩⟩,
      List.forall_mem_singleton.2 ⟨_, hkind, nofun⟩⟩
  have haccepts : ∀ a ∈ [multipleOfThree, smallKind], ∀ v,
      problem.get? a.filter.field = some v → a.filter.accepts v = true := by
    refine List.forall_mem_cons.2 ⟨fun v hv => ?_, List.forall_mem_singleton.2 fun v hv => ?_⟩
    · obtain rfl := Option.some.inj (hn.symm.trans hv)
      decide +kernel
    · obtain rfl := Option.some.inj (hkind.symm.trans hv)
      decide +kernel
  obtain ⟨hcomplete, -, -, hvalue⟩ := readers_agree smallMultiple ⟨[], rfl⟩ ⟨[], rfl⟩ hdivisors
  rw [htext] at hcomplete hvalue
  obtain ⟨b, hb, hiff⟩ := hvalue { problem } rfl hbound
  exact ⟨htext, hcomplete, hb.trans (congrArg Except.ok (hiff.2 haccepts))⟩

/-- A divisor that is not 0 but too small for a double: 450 zeros behind the point, and a one. -/
def tinyDivisor : Decimal where
  negative := false
  numeral.digits := '0' :: '.' :: (List.replicate 450 '0' ++ ['1'])
  numeral.isUnsigned :=
    ⟨['0'], List.replicate 450 '0' ++ ['1'], by decide, by decide, by decide +kernel,
      .inr ⟨List.append_ne_nil_of_right_ne_nil _ (List.cons_ne_nil _ _), rfl⟩⟩

/-- `n % d == 0` with the tiny divisor. -/
def tinyDivision : Atom :=
  .divisibility ⟨"n", by decide, by decide⟩ ⟨[' '], rfl⟩ ⟨[' '], rfl⟩ tinyDivisor ⟨[' '], rfl⟩ true
    ⟨[' '], rfl⟩

theorem tinyDivisor_value : (tinyDivisor.value == 0.0) = true := by decide +kernel

/-- It is not enough that a divisor has a digit other than 0: if it is too small for a double, the
text is read as a constraint, but this is no filter. -/
theorem not_readers_agree : ¬∀ (l : Layout) (front back : Blanks),
    (∀ a ∈ l.atoms, ∀ d ∈ a.divisor?, ∃ c ∈ d.chars, c ∈ "123456789".toList) →
    ∀ k ∈ (parse (l.text front back)).constraints, (FieldFilter.ofConstraint? k).isSome := by
  intro h
  have hchars : '1' ∈ tinyDivisor.chars :=
    List.mem_cons_of_mem _ (List.mem_cons_of_mem _ (List.mem_append_right _ List.mem_cons_self))
  have hdigits : ∀ a ∈ [tinyDivision], ∀ d ∈ a.divisor?, ∃ c ∈ d.chars,
      c ∈ "123456789".toList := by
    refine List.forall_mem_singleton.2 ?_
    rintro _ ⟨⟩
    exact ⟨'1', hchars, by decide⟩
  have hfilter : FieldFilter.ofConstraint? tinyDivision.constraint = none := by
    rw [tinyDivision, Atom.constraint, FieldFilter.ofConstraint?, String.toList_ofList,
      readNumeral_chars]
    dsimp only
    rw [if_pos tinyDivisor_value, ite_self]
  have hsome := h (.atom tinyDivision) ⟨[], rfl⟩ ⟨[], rfl⟩ hdigits tinyDivision.constraint (by
    rw [parse_text]
    exact List.mem_cons_self)
  rw [hfilter] at hsome
  cases hsome

end Layout

end ProcedureChart.Constraint
